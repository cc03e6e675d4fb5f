/-
  Finding the statement in the text of a migration. The search goes by characters alone: the first
  place where the facade is called to change a table, and from there the first place where a mark
  stands that is taken for the end.
  Main result: `definitionIn_eq_some_iff`.
-/
import SchemaBridge.Statement.Read
import Mathlib.Data.List.Infix

namespace SchemaBridge.Statement

/-! ## Searching for a mark -/

/-- The mark begins in the first of two texts that stand one after the other. -/
def beginsIn (mark : List Char) : List Char → List Char → Bool
  | [], _ => false
  | c :: s, after => mark.isPrefixOf (c :: s ++ after) || beginsIn mark s after

/-- The mark stands at the end of the text and nowhere before. -/
def EndsAtFirst (mark s : List Char) : Prop :=
  ∃ front, s = front ++ mark ∧ beginsIn mark front mark = false

section Mark

variable {mark : List Char}

theorem beginsIn_append (a b after : List Char) :
    beginsIn mark (a ++ b) after = (beginsIn mark a (b ++ after) || beginsIn mark b after) := by
  induction a with
  | nil => rfl
  | cons c a ih =>
    rw [List.cons_append, beginsIn, beginsIn, ih, ← List.cons_append, List.append_assoc,
      Bool.or_assoc]

theorem beginsIn_of_not_mem {d : Char} {more a : List Char} (h : d ∉ a) (after : List Char) :
    beginsIn (d :: more) a after = false := by
  induction a with
  | nil => rfl
  | cons c a ih =>
    have hc : d ≠ c := fun heq => h (heq ▸ List.mem_cons_self)
    rw [beginsIn, ih fun ha => h (List.mem_cons_of_mem _ ha), List.cons_append, List.isPrefixOf, beq_false_of_ne hc]
    rfl

/-- A mark that begins before another one ends before it does. -/
theorem isPrefixOf_mark_append (a after : List Char) :
    mark.isPrefixOf (a ++ (mark ++ after)) = mark.isPrefixOf (a ++ mark) := by
  rw [Bool.eq_iff_iff, List.isPrefixOf_iff_prefix, List.isPrefixOf_iff_prefix,
    ← List.append_assoc]
  refine ⟨fun h => List.prefix_of_prefix_length_le h (List.prefix_append _ _) ?_,
    fun h => h.trans (List.prefix_append _ _)⟩
  rw [List.length_append]
  exact Nat.le_add_left _ _

/-- What a search finds ends with the mark, and no mark begins in what stands before. -/
theorem endsAtFirst_of_upTo {s t : List Char} (h : upTo mark s = some t) :
    t <+: s ∧ EndsAtFirst mark t := by
  induction s generalizing t with
  | nil =>
    unfold upTo at h
    split at h
    · rename_i hprefix
      cases h
      exact ⟨List.isPrefixOf_iff_prefix.mp hprefix, [], rfl, rfl⟩
    · cases h
  | cons c s ih =>
    unfold upTo at h
    split at h
    · rename_i hprefix
      cases h
      exact ⟨List.isPrefixOf_iff_prefix.mp hprefix, [], rfl, rfl⟩
    · rename_i hnot
      obtain ⟨u, hu, rfl⟩ := Option.map_eq_some_iff.mp h
      obtain ⟨hsub, front, rfl, hfront⟩ := ih hu
      have hwhole : c :: (front ++ mark) <+: c :: s := List.cons_prefix_cons.mpr ⟨rfl, hsub⟩
      refine ⟨hwhole, c :: front, rfl, ?_⟩
      rw [beginsIn, hfront, Bool.or_false, ← Bool.not_eq_true]
      exact fun hbegins => hnot (List.isPrefixOf_iff_prefix.mpr
        ((List.isPrefixOf_iff_prefix.mp hbegins).trans hwhole))

theorem upTo_of_endsAtFirst {s : List Char} (h : EndsAtFirst mark s) (after : List Char) :
    upTo mark (s ++ after) = some s := by
  obtain ⟨front, rfl, hfront⟩ := h
  induction front with
  | nil =>
    have hprefix : mark.isPrefixOf (mark ++ after) = true :=
      List.isPrefixOf_iff_prefix.mpr (List.prefix_append _ _)
    unfold upTo
    exact if_pos hprefix
  | cons c front ih =>
    obtain ⟨hnot, hrest⟩ := Bool.or_eq_false_iff.mp hfront
    rw [← isPrefixOf_mark_append _ after, ← List.append_assoc] at hnot
    unfold upTo
    rw [hnot, if_neg Bool.false_ne_true]
    show (upTo mark (front ++ mark ++ after)).map (c :: ·) = _
    rw [ih hrest]
    rfl

theorem beginsIn_mark_append (front after : List Char) :
    beginsIn mark front (mark ++ after) = beginsIn mark front mark := by
  induction front with
  | nil => rfl
  | cons c front ih => rw [beginsIn, beginsIn, ih, isPrefixOf_mark_append]

theorem upTo_append_iff (s after : List Char) :
    upTo mark (s ++ after) = some s ↔ EndsAtFirst mark s :=
  ⟨fun h => (endsAtFirst_of_upTo h).2, fun h => upTo_of_endsAtFirst h after⟩

end Mark

/-! ## Finding a statement -/

/-- The word that stands at the head of every statement that drops a table, behind the facade. -/
def dropHead : List Char :=
  facade ++ ['d', 'r', 'o', 'p']

/-- The mark that is taken for the end of the statement at the head of a text. -/
def endMark (s : List Char) : List Char :=
  if dropHead.isPrefixOf s then [';'] else ['\x7d', ')', ';']

theorem statementAt_eq (s : List Char) : statementAt s = upTo (endMark s) s := by
  unfold statementAt endMark dropHead
  split <;> rfl

/-- A text that begins a statement has the same mark however it goes on. -/
theorem endMark_append {s : List Char} (h : beginsStatement s = true) (after : List Char) :
    endMark (s ++ after) = endMark s := by
  have hsame : dropHead.isPrefixOf (s ++ after) = dropHead.isPrefixOf s := by
    rw [Bool.eq_iff_iff, List.isPrefixOf_iff_prefix, List.isPrefixOf_iff_prefix]
    refine ⟨fun hdrop => ?_, fun hdrop => hdrop.trans (List.prefix_append _ _)⟩
    obtain ⟨call, hcall, hhead⟩ := List.any_eq_true.mp h
    have hhead := List.isPrefixOf_iff_prefix.mp hhead
    refine List.prefix_of_prefix_length_le hdrop (List.prefix_append _ _) ?_
    have hlength : dropHead.length ≤ (facade ++ call).length := by
      have hall : ∀ call ∈ [['c', 'r', 'e', 'a', 't', 'e', '('], ['t', 'a', 'b', 'l', 'e', '('],
          ['d', 'r', 'o', 'p']], dropHead.length ≤ (facade ++ call).length := by decide
      exact hall call hcall
    exact hlength.trans hhead.length_le
  unfold endMark
  rw [hsame]

theorem beginsStatement_append {s : List Char} (h : beginsStatement s = true)
    (after : List Char) : beginsStatement (s ++ after) = true := by
  obtain ⟨call, hcall, hhead⟩ := List.any_eq_true.mp h
  exact List.any_eq_true.mpr ⟨call, hcall, List.isPrefixOf_iff_prefix.mpr
    ((List.isPrefixOf_iff_prefix.mp hhead).trans (List.prefix_append _ _))⟩

theorem isPrefixOf_facade {s : List Char} (h : beginsStatement s = true) :
    facade.isPrefixOf s = true := by
  obtain ⟨call, -, hhead⟩ := List.any_eq_true.mp h
  exact List.isPrefixOf_iff_prefix.mpr
    ((List.prefix_append _ _).trans (List.isPrefixOf_iff_prefix.mp hhead))

/-- No statement begins where the facade does not. -/
theorem definitionIn_of_beginsIn {before s : List Char} (h : beginsIn facade before s = false) :
    definitionIn (before ++ s) = definitionIn s := by
  induction before with
  | nil => rfl
  | cons c before ih =>
    obtain ⟨hnot, hrest⟩ := Bool.or_eq_false_iff.mp h
    have hbegins : ¬beginsStatement (c :: (before ++ s)) = true := by
      intro hbegins
      rw [List.cons_append, isPrefixOf_facade hbegins] at hnot
      cases hnot
    rw [List.cons_append, definitionIn, if_neg hbegins, ih hrest]

/-- A statement behind other text is found whole just when its mark stands only at its end. -/
theorem definitionIn_eq_some_iff {before s : List Char} (hbegins : beginsStatement s = true)
    (hbefore : beginsIn facade before s = false) (after : List Char) :
    definitionIn (before ++ (s ++ after)) = some s ↔ EndsAtFirst (endMark s) s := by
  obtain ⟨rest, rfl⟩ := List.isPrefixOf_iff_prefix.mp (isPrefixOf_facade hbegins)
  have hwhole : beginsIn facade before (facade ++ rest ++ after) = false := by
    rw [List.append_assoc, beginsIn_mark_append, ← beginsIn_mark_append before rest]
    exact hbefore
  rw [definitionIn_of_beginsIn hwhole, definitionIn.eq_def,
    if_pos (beginsStatement_append hbegins after), statementAt_eq, endMark_append hbegins,
    upTo_append_iff]

end SchemaBridge.Statement
