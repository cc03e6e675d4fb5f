/-
  Derivation trees over tokens.
-/
import SchemaBridge.Grammar.Basic
import SchemaBridge.Grammar.Token

namespace SchemaBridge

/-- A derivation tree: tokens at the leaves, rules at the inner nodes. -/
inductive Tree (T N P : Type)
  | leaf (token : Token T)
  | node (rule : Rule T N P) (children : List (Tree T N P))

/-- One act of building a tree: a leaf, or a node over the `arity` trees built last. -/
inductive BuildStep (T P : Type)
  | leaf (token : Token T)
  | node (tag : P) (arity : Nat)
  deriving DecidableEq, Repr

namespace Tree

variable {T N P : Type}

/-- The symbol at the root. -/
def root : Tree T N P → Symbol T N
  | leaf token => .terminal token.kind
  | node rule _ => .nonterminal rule.lhs

mutual

/-- The tokens at the leaves. -/
def leaves : Tree T N P → List (Token T)
  | leaf token => [token]
  | node _ children => leavesOf children

def leavesOf : List (Tree T N P) → List (Token T)
  | [] => []
  | tree :: rest => tree.leaves ++ leavesOf rest

end

mutual

/-- The tree is a derivation: every node has a rule of the grammar, and its children the symbols
of the right-hand side at their roots. -/
def Valid (rules : List (Rule T N P)) : Tree T N P → Prop
  | leaf _ => True
  | node rule children =>
    rule ∈ rules ∧ children.map root = rule.rhs ∧ ValidAll rules children

def ValidAll (rules : List (Rule T N P)) : List (Tree T N P) → Prop
  | [] => True
  | tree :: rest => tree.Valid rules ∧ ValidAll rules rest

end

mutual

/-- How a tree is built, from the leaves up and from left to right. -/
def build : Tree T N P → List (BuildStep T P)
  | leaf token => [.leaf token]
  | node rule children => buildAll children ++ [.node rule.tag children.length]

def buildAll : List (Tree T N P) → List (BuildStep T P)
  | [] => []
  | tree :: rest => tree.build ++ buildAll rest

end

mutual

/-- The value of a tree, from a value for each token and a value for each rule applied to the
values of its children. -/
def fold {α : Type} (token : Token T → α) (rule : P → List α → α) : Tree T N P → α
  | leaf t => token t
  | node r children => rule r.tag (foldAll token rule children)

def foldAll {α : Type} (token : Token T → α) (rule : P → List α → α) :
    List (Tree T N P) → List α
  | [] => []
  | tree :: rest => tree.fold token rule :: foldAll token rule rest

end

theorem leavesOf_append (a b : List (Tree T N P)) :
    leavesOf (a ++ b) = leavesOf a ++ leavesOf b := by
  induction a with
  | nil => rfl
  | cons t rest ih => simp [leavesOf, ih]

theorem buildAll_append (a b : List (Tree T N P)) :
    buildAll (a ++ b) = buildAll a ++ buildAll b := by
  induction a with
  | nil => rfl
  | cons t rest ih => simp [buildAll, ih]

theorem validAll_iff {rules : List (Rule T N P)} {trees : List (Tree T N P)} :
    ValidAll rules trees ↔ ∀ t ∈ trees, t.Valid rules := by
  induction trees with
  | nil => simp [ValidAll]
  | cons t rest ih => simp [ValidAll, ih]

end Tree

end SchemaBridge
