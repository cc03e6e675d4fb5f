/-
  Reading class diagrams. Each reader takes what it looks for from the head of a list of tokens;
  the lemmas say how much it takes, so that reading many of a kind ends.
-/
import SchemaBridge.Diagram.Item

namespace SchemaBridge.Diagram

/-- The result of reading the head of a list of tokens, with the tokens that follow. -/
abbrev Reader (α : Type) := List Token → Except DiagramError (α × List Token)

/-- Fails at the next token. -/
def unexpected {α : Type} (expected : Expectation) (ts : List Token) : Except DiagramError α :=
  .error (.unexpected ts.head? expected)

def readIdent : Reader String
  | .ident name :: rest => .ok (name, rest)
  | ts => unexpected .identifier ts

/-- The flag of a modifier of a field. -/
def modifierFlags (keyword : String) : Except DiagramError Flags :=
  match keyword with
  | "pk" | "primary" => .ok { primary := true }
  | "unique" => .ok { unique := true }
  | "nullable" => .ok { nullable := true }
  | _ => .error (.unknownModifier keyword)

/-- Reads modifiers up to the closing brace, `flags` being those already read. -/
def readModifiers (flags : Flags) : Reader Flags
  | .ident keyword :: .comma :: rest =>
    match modifierFlags keyword with
    | .ok more => readModifiers (flags ∪ more) rest
    | .error e => .error e
  | .ident keyword :: ts =>
    match modifierFlags keyword with
    | .ok more =>
      match ts with
      | .closeBrace :: rest => .ok (flags ∪ more, rest)
      | _ => unexpected .closeBrace ts
    | .error e => .error e
  | ts => unexpected .identifier ts

/-- Reads the modifiers of a field, if there are any. -/
def readFlags : Reader Flags
  | .openBrace :: rest => readModifiers .none rest
  | ts => .ok (.none, ts)

/-- Reads the type of a field, if it has one. -/
def readType : Reader (Option ColumnType)
  | .colon :: rest => do
    let (name, rest) ← readIdent rest
    .ok (some (.ofName name), rest)
  | ts => .ok (none, ts)

def readField : Reader Field := fun ts => do
  let (name, ts) ← readIdent ts
  let (type, ts) ← readType ts
  let (flags, ts) ← readFlags ts
  .ok ({ name, type, flags }, ts)

/-- The multiplicity that a text stands for. -/
def multiplicityOf? (text : String) : Option Multiplicity :=
  match text with
  | "1" => some .one
  | "0..1" => some .zeroOrOne
  | "*" | "0..*" => some .any
  | "1..*" => some .atLeastOne
  | _ => none

/-- Reads the multiplicity of an end; without one the end is single. -/
def readMultiplicity : Reader Multiplicity
  | .text contents :: rest =>
    let text := String.ofList (Text.trim contents.toList)
    match multiplicityOf? text with
    | some m => .ok (m, rest)
    | none => .error (.invalidMultiplicity text)
  | ts => .ok (.one, ts)

def readDash : Reader Unit
  | .dash :: rest => .ok ((), rest)
  | ts => unexpected .dash ts

/-- Reads the label of a relation, if it has one. -/
def readLabel : Reader Unit
  | .colon :: .ident _ :: rest => .ok ((), rest)
  | .colon :: .text _ :: rest => .ok ((), rest)
  | .colon :: ts => unexpected .label ts
  | ts => .ok ((), ts)

/-- Reads what follows the name of the first class of a relation. -/
def readRelation (source : String) : Reader Relation := fun ts => do
  let (near, ts) ← readMultiplicity ts
  let ((), ts) ← readDash ts
  let (far, ts) ← readMultiplicity ts
  let (target, ts) ← readIdent ts
  let ((), ts) ← readLabel ts
  .ok (⟨⟨source, near⟩, ⟨target, far⟩⟩, ts)

theorem exists_of_bind_eq_ok {ε α β : Type} {x : Except ε α} {f : α → Except ε β} {b : β}
    (h : (x >>= f) = .ok b) : ∃ a, x = .ok a ∧ f a = .ok b := by
  cases x with
  | error e => cases h
  | ok a => exact ⟨a, rfl, h⟩

theorem readIdent_eq_ok_iff {ts rest : List Token} {name : String} :
    readIdent ts = .ok (name, rest) ↔ ts = .ident name :: rest := by
  unfold readIdent
  split
  · simp
  · rename_i hne
    constructor
    · intro h
      cases h
    · intro h
      exact absurd h (hne _ _)

theorem length_readModifiers_lt {flags : Flags} {ts : List Token} {p : Flags × List Token}
    (h : readModifiers flags ts = .ok p) : p.2.length < ts.length := by
  fun_induction readModifiers flags ts generalizing p with
  | case1 flags keyword rest more hm ih =>
    have := ih h
    simp only [List.length_cons]
    omega
  | case3 flags keyword more hm rest =>
    cases h
    simp only [List.length_cons]
    omega
  | _ => cases h

theorem length_readFlags_le {ts : List Token} {p : Flags × List Token}
    (h : readFlags ts = .ok p) : p.2.length ≤ ts.length := by
  unfold readFlags at h
  split at h
  · have := length_readModifiers_lt h
    simp only [List.length_cons]
    omega
  · cases h
    exact Nat.le_refl _

theorem length_readType_le {ts : List Token} {p : Option ColumnType × List Token}
    (h : readType ts = .ok p) : p.2.length ≤ ts.length := by
  unfold readType at h
  split at h
  · obtain ⟨⟨name, rest'⟩, hi, hp⟩ := exists_of_bind_eq_ok h
    rw [readIdent_eq_ok_iff] at hi
    cases hp
    simp only [hi, List.length_cons]
    omega
  · cases h
    exact Nat.le_refl _

theorem length_readField_lt {ts : List Token} {p : Field × List Token}
    (h : readField ts = .ok p) : p.2.length < ts.length := by
  obtain ⟨⟨name, ts₁⟩, h1, h⟩ := exists_of_bind_eq_ok h
  obtain ⟨⟨type, ts₂⟩, h2, h⟩ := exists_of_bind_eq_ok h
  obtain ⟨⟨flags, ts₃⟩, h3, h⟩ := exists_of_bind_eq_ok h
  rw [readIdent_eq_ok_iff] at h1
  have l2 := length_readType_le h2
  have l3 := length_readFlags_le h3
  cases h
  simp only [h1, List.length_cons] at l2 l3 ⊢
  omega

theorem length_readMultiplicity_le {ts : List Token} {p : Multiplicity × List Token}
    (h : readMultiplicity ts = .ok p) : p.2.length ≤ ts.length := by
  unfold readMultiplicity at h
  split at h
  · simp only at h
    split at h
    · cases h
      exact Nat.le_succ _
    · cases h
  · cases h
    exact Nat.le_refl _

theorem length_readDash_lt {ts : List Token} {p : Unit × List Token}
    (h : readDash ts = .ok p) : p.2.length < ts.length := by
  unfold readDash at h
  split at h <;> cases h
  exact Nat.lt_succ_self _

theorem length_readLabel_le {ts : List Token} {p : Unit × List Token}
    (h : readLabel ts = .ok p) : p.2.length ≤ ts.length := by
  unfold readLabel at h
  split at h <;> cases h <;> simp only [List.length_cons] <;> omega

theorem length_readRelation_lt {source : String} {ts : List Token} {p : Relation × List Token}
    (h : readRelation source ts = .ok p) : p.2.length < ts.length := by
  obtain ⟨⟨near, ts₁⟩, h1, h⟩ := exists_of_bind_eq_ok h
  obtain ⟨⟨⟨⟩, ts₂⟩, h2, h⟩ := exists_of_bind_eq_ok h
  obtain ⟨⟨far, ts₃⟩, h3, h⟩ := exists_of_bind_eq_ok h
  obtain ⟨⟨target, ts₄⟩, h4, h⟩ := exists_of_bind_eq_ok h
  obtain ⟨⟨⟨⟩, ts₅⟩, h5, h⟩ := exists_of_bind_eq_ok h
  have l1 := length_readMultiplicity_le h1
  have l2 := length_readDash_lt h2
  have l3 := length_readMultiplicity_le h3
  have l5 := length_readLabel_le h5
  rw [readIdent_eq_ok_iff] at h4
  cases h
  simp only [h4, List.length_cons] at l1 l2 l3 l5 ⊢
  omega

/-- Reads fields up to the closing brace. -/
def readFields (ts : List Token) : Except DiagramError (List Field × List Token) :=
  match ts with
  | .closeBrace :: rest => .ok ([], rest)
  | ts =>
    match _h : readField ts with
    | .error e => .error e
    | .ok (f, rest) => (readFields rest).map fun p => (f :: p.1, p.2)
termination_by ts.length
decreasing_by exact length_readField_lt _h

/-- Reads what follows the keyword of a class. -/
def readClass : Reader Item := fun ts => do
  let (name, ts) ← readIdent ts
  match ts with
  | .openBrace :: rest =>
    let (fields, rest) ← readFields rest
    .ok (.cls name fields, rest)
  | ts => .ok (.cls name [], ts)

/-- Reads an item. -/
def readItem : Reader Item
  | .atSign :: .ident name :: rest =>
    if name = "startuml" ∨ name = "enduml" then .ok (.marker, rest)
    else unexpected .marker (.ident name :: rest)
  | .atSign :: ts => unexpected .marker ts
  | .ident name :: rest =>
    if name = "class" ∨ name = "entity" then readClass rest
    else (readRelation name rest).map fun p => (.relation p.1, p.2)
  | ts => unexpected .item ts

theorem length_readFields_lt {ts : List Token} {p : List Field × List Token}
    (h : readFields ts = .ok p) : p.2.length < ts.length := by
  fun_induction readFields ts generalizing p with
  | case1 rest =>
    cases h
    exact Nat.lt_succ_self _
  | case2 => cases h
  | case3 ts f rest _ hf ih =>
    cases hr : readFields rest with
    | error e =>
      rw [hr] at h
      cases h
    | ok q =>
      rw [hr] at h
      cases h
      exact Nat.lt_trans (ih (p := q) hr) (length_readField_lt hf)

theorem length_readClass_lt {ts : List Token} {p : Item × List Token}
    (h : readClass ts = .ok p) : p.2.length < ts.length := by
  obtain ⟨⟨name, ts₁⟩, h1, hbody⟩ := exists_of_bind_eq_ok h
  clear h
  rw [readIdent_eq_ok_iff] at h1
  subst h1
  dsimp only at hbody
  split at hbody
  · obtain ⟨⟨fields, rest'⟩, h2, h⟩ := exists_of_bind_eq_ok hbody
    have := length_readFields_lt h2
    cases h
    simp only [List.length_cons] at this ⊢
    omega
  · cases hbody
    exact Nat.lt_succ_self _

theorem length_readItem_lt {ts : List Token} {p : Item × List Token}
    (h : readItem ts = .ok p) : p.2.length < ts.length := by
  unfold readItem at h
  split at h
  · split at h <;> cases h
    simp only [List.length_cons]
    omega
  · cases h
  · split at h
    · exact Nat.lt_succ_of_lt (length_readClass_lt h)
    · rename_i name rest _
      cases hr : readRelation name rest with
      | error e =>
        rw [hr] at h
        cases h
      | ok q =>
        rw [hr] at h
        cases h
        exact Nat.lt_succ_of_lt (length_readRelation_lt hr)
  · cases h

/-- Reads items to the end. -/
def readItems (ts : List Token) : Except DiagramError (List Item) :=
  match ts with
  | [] => .ok []
  | t :: rest =>
    match _h : readItem (t :: rest) with
    | .error e => .error e
    | .ok (item, rest) => (readItems rest).map (item :: ·)
termination_by ts.length
decreasing_by exact length_readItem_lt _h

/-- The items of a text. -/
def items (text : String) : Except DiagramError (List Item) :=
  match tokens text.toList with
  | .error e => .error (.lex e)
  | .ok ts => readItems ts

/-- The schema that a text describes. -/
def read (text : String) : Except DiagramError Schema :=
  (items text).map fun is => is.foldl Item.apply .empty

end SchemaBridge.Diagram
