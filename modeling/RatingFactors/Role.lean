/-!
# Roles of ratings

A known rating either is learned from (`train`) or is held out to judge the
model (`validate`); an unknown one is there to be predicted (`predict`). A label
that is none of these three is kept as it is, so that the phases of learning can
refuse it.

The role of an edge file is read off the end of its name.
-/

namespace RatingFactors

/-- What a rating is used for. -/
inductive Role
  | train
  | validate
  | predict
  | other (label : String)
deriving DecidableEq, Hashable, Repr

namespace Role

/-- The three roles, in the order in which they are written out. -/
def known : List Role := [train, validate, predict]

/-- The label that stands for a role in tables. -/
def label : Role → String
  | train => "train"
  | validate => "validate"
  | predict => "predict"
  | other text => text

/-- The role that a label stands for. -/
def ofLabel (text : String) : Role :=
  if text = "train" then train
  else if text = "validate" then validate
  else if text = "predict" then predict
  else other text

/-- Is this one of the three roles? -/
def isKnown : Role → Bool
  | other _ => false
  | _ => true

/-- The role of an edge file: held out when its name ends so, otherwise to be
learned from. -/
def ofFileName (name : String) : Role :=
  if name.endsWith ".validate" then validate
  else if name.endsWith ".predict" then predict
  else train

/-- A label reads back to the role it was written for. -/
theorem ofLabel_label {role : Role} (h : role.isKnown = true) :
    ofLabel role.label = role := by
  cases role <;> first | rfl | simp [isKnown] at h

/-- Reading a label and writing it gives the label back. -/
theorem label_ofLabel (text : String) : (ofLabel text).label = text := by
  unfold ofLabel
  split
  · simp_all [label]
  · split
    · simp_all [label]
    · split <;> simp_all [label]

end Role

end RatingFactors
