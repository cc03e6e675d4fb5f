/-
  Loops that go round until a round has found nothing new. A part of a round is a pass: it enters
  some of what a step implies of what is known, and if it enters nothing, all that the step implies
  is known. Passes are put together to a round, and the loop then ends with the least set that the
  step does not lead out of, provided that it does not lead out of some finite stock either.
  Main result: `Pass.settle_eq`.
-/
import Mathlib.Data.List.Nodup
import Mathlib.Data.List.Perm.Subperm
import Mathlib.Order.Bounds.Basic

namespace SchemaBridge

/-- Finds, each once, and whether this round has made one. -/
@[ext]
structure Finds (α : Type) where
  found : List α
  nodup : found.Nodup
  changed : Bool

namespace Finds

variable {α : Type}

/-- Goes round, each time without changes at first, until there are none at the end. `none` if that
takes more than `limit` rounds. -/
def settle (round : Finds α → Finds α) (limit : Nat) (s : Finds α) : Option (Finds α) :=
  if s.changed then
    match limit with
    | 0 => none
    | limit + 1 => settle round limit (round { s with changed := false })
  else some s

/-- Some things were found, and the flag tells of it. -/
def Grows (s s' : Finds α) : Prop :=
  ∃ new, s'.found = s.found ++ new ∧ s'.changed = (s.changed || !new.isEmpty)

variable {s s' s'' : Finds α} {a b : α} {l : List α}

theorem settle_unchanged (round : Finds α → Finds α) (limit : Nat) (h : s.changed = false) :
    s.settle round limit = some s := by
  rw [settle.eq_def, h, if_neg Bool.false_ne_true]

theorem settle_changed (round : Finds α → Finds α) (limit : Nat) (h : s.changed = true) :
    s.settle round (limit + 1) = (round { s with changed := false }).settle round limit := by
  rw [settle, if_pos h]

theorem Grows.refl (s : Finds α) : s.Grows s :=
  ⟨[], by simp, by simp⟩

theorem Grows.trans (h : s.Grows s') (h' : s'.Grows s'') : s.Grows s'' := by
  obtain ⟨new, hfound, hchanged⟩ := h
  obtain ⟨more, hfound', hchanged'⟩ := h'
  refine ⟨new ++ more, by rw [hfound', hfound, List.append_assoc], ?_⟩
  cases new <;> simp [hchanged', hchanged]

theorem Grows.antisymm (h : s.Grows s') (h' : s'.Grows s) : s' = s := by
  obtain ⟨new, hfound, hchanged⟩ := h
  obtain ⟨more, hfound', -⟩ := h'
  have hnew : new = [] := by
    rw [hfound, List.append_assoc, List.self_eq_append_right, List.append_eq_nil_iff] at hfound'
    exact hfound'.1
  subst hnew
  ext1
  · simpa using hfound
  · simpa using hchanged

section Add

variable [DecidableEq α]

def add (s : Finds α) (a : α) : Finds α :=
  if h : a ∈ s.found then s
  else ⟨s.found.concat a, List.Nodup.concat h s.nodup, true⟩

def addAll (s : Finds α) (l : List α) : Finds α :=
  l.foldl add s

theorem grows_add (s : Finds α) (a : α) : s.Grows (s.add a) := by
  unfold add
  split
  · exact .refl s
  · exact ⟨[a], by simp, by simp⟩

theorem grows_addAll (s : Finds α) (l : List α) : s.Grows (s.addAll l) := by
  induction l generalizing s with
  | nil => exact .refl s
  | cons a rest ih => exact (s.grows_add a).trans (ih _)

theorem mem_add : b ∈ (s.add a).found ↔ b ∈ s.found ∨ b = a := by
  unfold add
  split
  · rename_i ha
    exact ⟨.inl, fun h => h.elim id fun hb => hb ▸ ha⟩
  · simp

theorem mem_addAll : b ∈ (s.addAll l).found ↔ b ∈ s.found ∨ b ∈ l := by
  induction l generalizing s with
  | nil => simp [addAll]
  | cons a rest ih =>
    have hrest := @ih (s.add a)
    rw [mem_add, or_assoc] at hrest
    rw [List.mem_cons]
    exact hrest

end Add

end Finds

/-- A part of a round that enters nothing but what the step implies, and that enters something
unless all that the step implies is there. -/
structure Pass {α : Type} (step : (α → Prop) → α → Prop) (f : Finds α → Finds α) : Prop where
  grows : ∀ s : Finds α, s.Grows (f s)
  sound : ∀ s known, (∀ a, step known a → known a) → (∀ a ∈ s.found, known a) →
    ∀ a ∈ (f s).found, known a
  complete : ∀ s, f s = s → ∀ a, step (· ∈ s.found) a → a ∈ s.found

namespace Pass

variable {α : Type} {p q : (α → Prop) → α → Prop} {f g : Finds α → Finds α}

theorem congr (h : Pass p f) (hstep : ∀ known a, p known a ↔ q known a) : Pass q f where
  grows := h.grows
  sound s known hclosed := h.sound s known fun a ha => hclosed a ((hstep known a).mp ha)
  complete s hs a ha := h.complete s hs a ((hstep _ a).mpr ha)

/-- Nothing needs to be entered that is known. -/
theorem skip (h : ∀ known a, p known a → known a) : Pass p id where
  grows := .refl
  sound _ _ _ hs := hs
  complete s _ := h (· ∈ s.found)

section Enter

variable [DecidableEq α]

theorem enter (l : List α → List α)
    (hsound : ∀ seen known, (∀ a, p known a → known a) → (∀ a ∈ seen, known a) →
      ∀ a ∈ l seen, known a)
    (hcomplete : ∀ seen a, p (· ∈ seen) a → a ∈ l seen) : Pass p fun s => s.addAll (l s.found) where
  grows s := s.grows_addAll _
  sound s known hclosed hs a ha :=
    (Finds.mem_addAll.mp ha).elim (hs a) (hsound s.found known hclosed hs a)
  complete s hs a ha := hs ▸ Finds.mem_addAll.mpr (.inr (hcomplete s.found a ha))

theorem enter_all (l : List α) : Pass (fun _ a => a ∈ l) fun s => s.addAll l :=
  enter (fun _ => l) (fun _ _ hclosed _ => hclosed) fun _ _ => id

theorem enter_one (a : α) : Pass (fun _ b => b = a) fun s => s.add a :=
  (enter_all [a]).congr fun _ _ => List.mem_singleton

/-- What is known is carried over to something else. -/
theorem carry (φ : α → Option α) :
    Pass (fun known b => ∃ a, known a ∧ φ a = some b) fun s => s.addAll (s.found.filterMap φ) := by
  refine enter (List.filterMap φ) (fun seen known hclosed hseen b hb => ?_) fun seen b hb => ?_
  · obtain ⟨a, ha, hab⟩ := List.mem_filterMap.mp hb
    exact hclosed b ⟨a, hseen a ha, hab⟩
  · exact List.mem_filterMap.mpr hb

end Enter

theorem seq (hf : Pass p f) (hg : Pass q g) :
    Pass (fun known a => p known a ∨ q known a) fun s => g (f s) where
  grows s := (hf.grows s).trans (hg.grows _)
  sound s known hclosed hs :=
    hg.sound (f s) known (fun a ha => hclosed a (.inr ha))
      (hf.sound s known (fun a ha => hclosed a (.inl ha)) hs)
  complete s hs a ha := by
    have hback : (f s).Grows s := by
      have hgrows := hg.grows (f s)
      rwa [hs] at hgrows
    have hfs : f s = s := (hf.grows s).antisymm hback
    rw [hfs] at hs
    exact ha.elim (hf.complete s hfs a) (hg.complete s hs a)

/-- A pass under a condition on what is known. -/
theorem guard (c : (α → Prop) → Prop)
    (hmono : ∀ known known', (∀ a, known a → known' a) → c known → c known')
    [∀ s : Finds α, Decidable (c (· ∈ s.found))] (hf : Pass p f) :
    Pass (fun known a => c known ∧ p known a) fun s => if c (· ∈ s.found) then f s else s where
  grows s := by
    split
    · exact hf.grows s
    · exact .refl s
  sound s known hclosed hs := by
    split
    · rename_i hc
      exact hf.sound s known (fun a ha => hclosed a ⟨hmono _ _ hs hc, ha⟩) hs
    · exact hs
  complete s hs a ha := by
    rw [if_pos ha.1] at hs
    exact hf.complete s hs a ha.2

/-- One pass after another. -/
theorem each {ι : Type} {p : ι → (α → Prop) → α → Prop} {f : ι → Finds α → Finds α}
    (h : ∀ i, Pass (p i) (f i)) (l : List ι) :
    Pass (fun known a => ∃ i ∈ l, p i known a) fun s => l.foldl (fun s i => f i s) s := by
  induction l with
  | nil => exact skip (by simp)
  | cons i rest ih => exact ((h i).seq ih).congr (by simp)

/-- Rounds of a pass come to an end, and then the least set is found that holds what was there and
all that the step implies. Each round but the last finds something of the stock. -/
theorem settle_eq {step : (α → Prop) → α → Prop} {round : Finds α → Finds α}
    (h : Pass step round) {stock : List α} (hstock : ∀ a, step (· ∈ stock) a → a ∈ stock)
    (s : Finds α) (hs : ∀ a ∈ s.found, a ∈ stock) (hchanged : s.changed = true) :
    ∃ s', (∀ limit, stock.length < limit + s.found.length → s.settle round limit = some s') ∧
      IsLeast {known | (∀ a ∈ s.found, known a) ∧ ∀ a, step known a → known a}
        (· ∈ s'.found) := by
  obtain ⟨room, hroom⟩ : ∃ room, stock.length - s.found.length = room := ⟨_, rfl⟩
  induction room using Nat.strongRecOn generalizing s with
  | _ room ih =>
    have hgrows := h.grows { s with changed := false }
    have hsound := h.sound { s with changed := false }
    have hcomplete := h.complete { s with changed := false }
    have hle : s.found.length ≤ stock.length := (List.subperm_of_subset s.nodup hs).length_le
    have hround := fun limit => Finds.settle_changed round limit hchanged
    generalize round { s with changed := false } = next at hgrows hsound hcomplete hround
    obtain ⟨new, hfound, hflag⟩ := hgrows
    cases new with
    | nil =>
      -- the last round
      have hsame : next = { s with changed := false } := by
        ext1
        · simpa using hfound
        · simpa using hflag
      subst hsame
      refine ⟨{ s with changed := false }, fun limit hlimit => ?_,
        ⟨fun a ha => ha, hcomplete rfl⟩, fun known hknown => hknown.1⟩
      cases limit with
      | zero => omega
      | succ limit => exact (hround limit).trans (Finds.settle_unchanged round limit rfl)
    | cons a more =>
      -- with more found there is less room
      have hin : ∀ b ∈ next.found, b ∈ stock := hsound (· ∈ stock) hstock hs
      have hlength : s.found.length < next.found.length := by simp [hfound]
      have hnext : next.found.length ≤ stock.length :=
        (List.subperm_of_subset next.nodup hin).length_le
      obtain ⟨s', hs', hleast⟩ := ih _ (by omega) next hin (by simpa using hflag) rfl
      refine ⟨s', fun limit hlimit => ?_, ⟨fun b hb => ?_, hleast.1.2⟩, fun known hknown => ?_⟩
      · cases limit with
        | zero => omega
        | succ limit => exact (hround limit).trans (hs' limit (by omega))
      · exact hleast.1.1 b (hfound ▸ List.mem_append_left _ hb)
      · exact hleast.2 ⟨hsound known hknown.2 hknown.1, hknown.2⟩

end Pass

end SchemaBridge
