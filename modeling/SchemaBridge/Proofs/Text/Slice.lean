/-
  Slices of a text from one place to another. A slice is missing if a place lies outside the text or
  within one of its characters; between the ends of parts of the text there is none missing.
  Main results: `RestAt.from_eq` and `RestAt.slice_eq`.
-/
import SchemaBridge.Text.Bytes

namespace SchemaBridge.Text

/-- The text from a place on, if the place is one of the text and between two characters. -/
def sliceFrom (s : List Char) (place : Nat) : Option (List Char) :=
  (cut s place).map Prod.snd

def sliceTo (s : List Char) (place : Nat) : Option (List Char) :=
  (cut s place).map Prod.fst

def slice (s : List Char) (start finish : Nat) : Option (List Char) :=
  (sliceTo s finish).bind fun front => sliceFrom front start

theorem sliceFrom_append (a b : List Char) : sliceFrom (a ++ b) (byteLength a) = some b := by
  rw [sliceFrom, cut_append]
  rfl

theorem sliceTo_append (a b : List Char) : sliceTo (a ++ b) (byteLength a) = some a := by
  rw [sliceTo, cut_append]
  rfl

theorem sliceTo_takeWhile (p : Char → Bool) (s : List Char) :
    sliceTo s (byteLength (s.takeWhile p)) = some (s.takeWhile p) := by
  have hsplit := sliceTo_append (s.takeWhile p) (s.dropWhile p)
  rwa [List.takeWhile_append_dropWhile] at hsplit

/-- The rest of the text begins at the place. -/
def RestAt (text rest : List Char) (place : Nat) : Prop :=
  ∃ before, text = before ++ rest ∧ place = byteLength before

variable {text rest : List Char} {place : Nat} {c : Char}

theorem restAt_start (text : List Char) : RestAt text text 0 :=
  ⟨[], rfl, rfl⟩

namespace RestAt

theorem behind (front : List Char) (h : RestAt text (front ++ rest) place) :
    RestAt text rest (place + byteLength front) := by
  obtain ⟨before, rfl, rfl⟩ := h
  exact ⟨before ++ front, by simp, by simp⟩

theorem tail (h : RestAt text (c :: rest) place) : RestAt text rest (place + c.utf8Size) :=
  h.behind [c]

theorem from_eq (h : RestAt text rest place) : sliceFrom text place = some rest := by
  obtain ⟨before, rfl, rfl⟩ := h
  exact sliceFrom_append before rest

theorem slice_eq {front : List Char} (h : RestAt text (front ++ rest) place) :
    slice text place (place + byteLength front) = some front := by
  obtain ⟨before, rfl, rfl⟩ := h
  rw [slice, ← byteLength_append, ← List.append_assoc, sliceTo_append]
  exact sliceFrom_append before front

theorem dropWhile (p : Char → Bool) (h : RestAt text rest place) :
    RestAt text (rest.dropWhile p) (place + byteLength (rest.takeWhile p)) :=
  behind _ (by rwa [List.takeWhile_append_dropWhile])

theorem slice_takeWhile (p : Char → Bool) (h : RestAt text rest place) :
    slice text place (place + byteLength (rest.takeWhile p)) = some (rest.takeWhile p) := by
  have hsplit : RestAt text (rest.takeWhile p ++ rest.dropWhile p) place := by
    rwa [List.takeWhile_append_dropWhile]
  exact hsplit.slice_eq

/-- The place counted from the end. -/
theorem eq_sub (h : RestAt text rest place) : place = byteLength text - byteLength rest := by
  obtain ⟨before, rfl, rfl⟩ := h
  rw [byteLength_append, Nat.add_sub_cancel]

end RestAt

end SchemaBridge.Text
