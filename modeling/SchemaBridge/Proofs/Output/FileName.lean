/-
  The names of migration files. A name is a stamp, a number and what the file does, and the number
  can be read off it: it has no leading zeros, and what a file does begins with a letter. The names
  of stock migrations are no such names, but for one.
  Main results: `stamp_of_stock` and `isLeftOut_migrations`.
-/
import SchemaBridge.Project
import SchemaBridge.Proofs.Statement.Lexer

namespace SchemaBridge.Output

/-- What the action in the name of a file begins with: it creates a table or adds a key. -/
def isActionStart (c : Option Char) : Bool :=
  c == some 'a' || c == some 'c'

/-- The number that follows a sign, if it is written as numbers are and an action comes next. -/
def numberAt : List Char → Option Nat
  | '_' :: rest =>
    let digits := rest.takeWhile (· != '_')
    let number := Nat.ofDigitChars 10 digits 0
    let action := (rest.dropWhile (· != '_')).drop 1
    if Nat.toDigits 10 number == digits && isActionStart action.head? then some number else none
  | _ => none

theorem numberAt_append (number : Nat) {action : List Char}
    (haction : isActionStart action.head? = true) :
    numberAt ('_' :: (Nat.toDigits 10 number ++ '_' :: action)) = some number := by
  have hdigits : ∀ c ∈ Nat.toDigits 10 number, (c != '_') = true := by
    intro c hc
    rw [bne_iff_ne]
    rintro rfl
    exact Nat.underscore_not_in_toDigits hc
  rw [numberAt, Statement.takeWhile_append_cons hdigits (by decide),
    Statement.dropWhile_append_cons hdigits (by decide), Nat.ofDigitChars_ten_toDigits,
    List.drop_one, List.tail_cons, haction, beq_self_eq_true]
  rfl

/-- The stock migrations have one place with such a number. -/
theorem numberAt_stock : ∀ name ∈ stockMigrations, ∀ i < name.toList.length,
    numberAt (name.toList.drop i) = none ∨
      name.toList.take i = "2014_10_12".toList ∧
        numberAt (name.toList.drop i) = some 100000 := by
  decide +kernel

theorem toList_migrationName (stamp : String) (index : Nat) (action : String) :
    (migrationName stamp index action).toList =
      stamp.toList ++ '_' :: (Nat.toDigits 10 index ++ '_' :: (action ++ ".php").toList) := by
  have hdigits : (toString index).toList = Nat.toDigits 10 index := String.toList_ofList
  unfold migrationName
  rw [String.toList_append, String.toList_append, String.toList_append, String.toList_append,
    String.toList_append, hdigits, String.toList_append]
  simp only [List.append_assoc]
  rfl

/-- A file that bears the name of a stock migration is the hundred thousandth of one date. -/
theorem stamp_of_stock {stamp : String} {index : Nat} {action : String}
    (haction : isActionStart action.toList.head? = true)
    (h : migrationName stamp index action ∈ stockMigrations) :
    stamp = "2014_10_12" ∧ index = 100000 := by
  have hchars := toList_migrationName stamp index action
  generalize migrationName stamp index action = name at h hchars
  have hlength : stamp.toList.length < name.toList.length := by
    rw [hchars, List.length_append, List.length_cons]
    omega
  have hnumber : numberAt (name.toList.drop stamp.toList.length) = some index := by
    rw [hchars, List.drop_left]
    apply numberAt_append
    rw [String.toList_append]
    cases hlist : action.toList with
    | nil =>
      rw [hlist] at haction
      cases haction
    | cons first rest =>
      rw [hlist] at haction
      exact haction
  rcases numberAt_stock name h _ hlength with hnone | ⟨hstamp, hindex⟩
  · rw [hnumber] at hnone
    cases hnone
  · rw [hchars, List.take_left] at hstamp
    rw [hnumber] at hindex
    exact ⟨String.toList_inj.mp hstamp, Option.some.inj hindex⟩

theorem isActionStart_drafts (p : Plan) (timestamps : Bool) :
    ∀ d ∈ drafts p timestamps, isActionStart d.action.toList.head? = true := by
  have hcreate : ∀ (table : String) (body : List Chain),
      isActionStart (createDraft table body).action.toList.head? = true := by
    intro table body
    unfold createDraft
    rw [String.toList_append, String.toList_append]
    rfl
  have hadd : ∀ k : Plan.ForeignKey, isActionStart (addKeyDraft k).action.toList.head? = true := by
    intro k
    unfold addKeyDraft
    rw [String.toList_append, String.toList_append, String.toList_append, String.toList_append]
    rfl
  intro d hd
  unfold drafts at hd
  rcases List.mem_append.mp hd with hd | hd
  · rcases List.mem_append.mp hd with hd | hd
    · obtain ⟨t, -, rfl⟩ := List.mem_map.mp hd
      exact hcreate _ _
    · obtain ⟨j, -, rfl⟩ := List.mem_map.mp hd
      exact hcreate _ _
  · obtain ⟨k, -, rfl⟩ := List.mem_map.mp hd
    exact hadd k

/-- Unless that file is among them, no file of a plan is left out. -/
theorem isLeftOut_migrations (p : Plan) (options : Options) {skipStock : Bool}
    (h : skipStock = false ∨ options.stamp ≠ "2014_10_12" ∨
      (migrations p options).length < 100000) :
    ∀ f ∈ migrations p options, isLeftOut skipStock f.name = false := by
  intro f hf
  cases skipStock with
  | false => rfl
  | true =>
    have hlength : (migrations p options).length = (drafts p options.timestamps).length := by
      unfold migrations
      rw [List.length_map, List.length_zipIdx]
    unfold migrations at hf
    obtain ⟨⟨d, index⟩, hd, rfl⟩ := List.mem_map.mp hf
    have hindex := (List.mem_zipIdx hd).2.1
    unfold isLeftOut
    rw [Bool.true_and, Bool.eq_false_iff, ne_eq, List.contains_iff_mem]
    intro hstock
    obtain ⟨hstamp, hlast⟩ := stamp_of_stock
      (isActionStart_drafts p options.timestamps d (List.fst_mem_of_mem_zipIdx hd)) hstock
    rcases h with hskip | hother | hfew
    · cases hskip
    · exact hother hstamp
    · omega

end SchemaBridge.Output
