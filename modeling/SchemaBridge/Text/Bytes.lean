/-
  Places in a text, counted in the bytes of its UTF-8 form, and the lines around them.
-/

namespace SchemaBridge.Text

/-- The number of bytes of a text. -/
def byteLength (s : List Char) : Nat :=
  s.foldr (fun c n => c.utf8Size + n) 0

@[simp] theorem byteLength_nil : byteLength [] = 0 := rfl

@[simp] theorem byteLength_cons (c : Char) (s : List Char) :
    byteLength (c :: s) = c.utf8Size + byteLength s := rfl

@[simp] theorem byteLength_append (a b : List Char) :
    byteLength (a ++ b) = byteLength a + byteLength b := by
  induction a with
  | nil => simp
  | cons c rest ih => simp [ih, Nat.add_assoc]

theorem byteLength_pos {s : List Char} (h : s ≠ []) : 0 < byteLength s := by
  cases s with
  | nil => exact absurd rfl h
  | cons c rest =>
    have := c.utf8Size_pos
    simp only [byteLength_cons]
    omega

/-- The text cut at a place: what stands before it, the last character first, and what stands
behind it. There is no cut within a character or past the end. -/
def cutFrom (before : List Char) (place : Nat) : List Char → Option (List Char × List Char)
  | [] => if place = 0 then some (before, []) else none
  | c :: rest =>
    if place = 0 then some (before, c :: rest)
    else if place < c.utf8Size then none
    else cutFrom (c :: before) (place - c.utf8Size) rest

/-- The text before a place and the text behind it. -/
def cut (s : List Char) (place : Nat) : Option (List Char × List Char) :=
  (cutFrom [] place s).map fun p => (p.1.reverse, p.2)

theorem cutFrom_append (before a b : List Char) :
    cutFrom before (byteLength a) (a ++ b) = some (a.reverse ++ before, b) := by
  induction a generalizing before with
  | nil => cases b <;> simp [cutFrom]
  | cons c rest ih =>
    have := c.utf8Size_pos
    simp only [byteLength_cons, List.cons_append, cutFrom]
    rw [if_neg (by omega), if_neg (by omega), Nat.add_sub_cancel_left, ih]
    simp

/-- A text can be cut at the end of each of its parts. -/
theorem cut_append (a b : List Char) : cut (a ++ b) (byteLength a) = some (a, b) := by
  simp [cut, cutFrom_append]

theorem eq_of_cutFrom {before s : List Char} {place : Nat} {p : List Char × List Char}
    (h : cutFrom before place s = some p) :
    ∃ a, p.1 = a.reverse ++ before ∧ s = a ++ p.2 ∧ place = byteLength a := by
  fun_induction cutFrom before place s with
  | case1 before =>
    cases h
    exact ⟨[], rfl, rfl, rfl⟩
  | case2 => simp at h
  | case3 before c rest =>
    cases h
    exact ⟨[], rfl, rfl, rfl⟩
  | case4 => simp at h
  | case5 before place c rest h0 hlt ih =>
    obtain ⟨a, h1, h2, h3⟩ := ih h
    refine ⟨c :: a, by simp [h1], by simp [h2], ?_⟩
    simp only [byteLength_cons]
    omega

/-- The two parts make up the text, and the place is the length of the first. -/
theorem cut_eq_some_iff {s a b : List Char} {place : Nat} :
    cut s place = some (a, b) ↔ s = a ++ b ∧ place = byteLength a := by
  constructor
  · intro h
    obtain ⟨p, hp, heq⟩ := Option.map_eq_some_iff.mp h
    obtain ⟨u, h1, h2, h3⟩ := eq_of_cutFrom hp
    simp only [List.append_nil] at h1
    cases heq
    simp [h1, h2, h3]
  · rintro ⟨rfl, rfl⟩
    exact cut_append a b

/-- The first line of a text, without its end. -/
def firstLine (s : List Char) : List Char :=
  let line := s.takeWhile (· != '\n')
  if line.length < s.length && line.getLast? == some '\r' then line.dropLast else line

/-- The part of a text behind its last line feed. -/
def lastLine (s : List Char) : List Char :=
  (s.reverse.takeWhile (· != '\n')).reverse

end SchemaBridge.Text
