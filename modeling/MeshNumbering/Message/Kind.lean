/-! The thirteen kinds of message processors exchange, and the phases in which they act on them. -/

namespace MeshNumbering

inductive MessageKind where
  | load
  | batch
  | receipt
  | delivered
  | query
  | mask
  | offset
  | request
  | assigned
  | lower
  | cost
  | deviation
  | abort
deriving DecidableEq

namespace MessageKind

def all : List MessageKind :=
  [load, batch, receipt, delivered, query, mask, offset, request, assigned, lower, cost, deviation,
    abort]

def name : MessageKind → String
  | load => "load"
  | batch => "add"
  | receipt => "ack"
  | delivered => "distributed"
  | query => "query"
  | mask => "mask"
  | offset => "offset"
  | request => "request"
  | assigned => "neworder"
  | lower => "lower"
  | cost => "cost"
  | deviation => "costvariance"
  | abort => "abort"

def index : MessageKind → Nat
  | load => 0
  | batch => 1
  | receipt => 2
  | delivered => 3
  | query => 4
  | mask => 5
  | offset => 6
  | request => 7
  | assigned => 8
  | lower => 9
  | cost => 10
  | deviation => 11
  | abort => 12

/-- The number a frame's header spells; numbers start at one there. -/
def code (k : MessageKind) : Nat := k.index + 1

def ofIndex? (n : Nat) : Option MessageKind := all[n]?

@[simp] theorem ofIndex?_index (k : MessageKind) : ofIndex? k.index = some k := by
  cases k <;> rfl

theorem index_lt (k : MessageKind) : k.index < 13 := by
  cases k <;> decide

theorem index_of_ofIndex? {n : Nat} {k : MessageKind} (h : ofIndex? n = some k) : k.index = n := by
  obtain ⟨hn, rfl⟩ := List.getElem?_eq_some_iff.1 h
  have : ∀ i : Fin all.length, (all.get i).index = i.1 := by decide
  exact this ⟨n, hn⟩

end MessageKind

inductive Phase where
  | setup
  | shipping
  | indexed
  | numbering
  | bounding
  | costing
  | done
deriving DecidableEq

namespace Phase

def name : Phase → String
  | setup => "setup"
  | shipping => "distributing"
  | indexed => "indexed"
  | numbering => "reordering"
  | bounding => "bounds"
  | costing => "costing"
  | done => "done"

def rank : Phase → Nat
  | setup => 0
  | shipping => 1
  | indexed => 2
  | numbering => 3
  | bounding => 4
  | costing => 5
  | done => 6

theorem rank_le (p : Phase) : p.rank ≤ 6 := by
  cases p <;> decide

instance : LT Phase := ⟨fun a b => a.rank < b.rank⟩
instance : LE Phase := ⟨fun a b => a.rank ≤ b.rank⟩
instance (a b : Phase) : Decidable (a < b) := inferInstanceAs (Decidable (a.rank < b.rank))
instance (a b : Phase) : Decidable (a ≤ b) := inferInstanceAs (Decidable (a.rank ≤ b.rank))

end Phase
end MeshNumbering
