/-
  HackPlatform.Proofs.Asm.TableRun
  ────────────────────────────────
  **A TABLE IN USE: what holds after any operations in any order.**

  Labels are bound to whatever address they are given, variables take the next
  free one, and either may be refused.  Both write to one map, but only allocating
  moves the counter, so what the counter says is a matter of the whole run:

      value of the next variable  =  16 + the number of variables allocated so far

  An operation that is refused changes nothing, so it may stand anywhere in a run.

      TableOp       one use of a table
      tableAfter    the table that operations leave behind
      firstBinds    the names that were bound while they had no value
      allocations   the names that became variables, with their addresses

  Main results:
    * `applied`, all that one operation can do to a table;
    * `Counted.apply`, `counted`, the count kept by one operation and by all;
    * `table_runs_lawful`, the laws of every run.
-/
import Mathlib.Data.List.Induction
import HackPlatform.Proofs.Asm.Table

namespace HackPlatform.Asm

/-! ## §1. Operations. -/

/-- One use of a table. -/
inductive TableOp where
  /-- Bind a name to an address. -/
  | bind (name : String) (address : Nat)
  /-- Ask for the value of a name. -/
  | lookup (name : String)
  /-- Ask for the value of a name, which becomes a variable if it has none. -/
  | resolve (name : String)
  deriving DecidableEq, Repr

/-- What a use of a table gives back. -/
inductive TableAnswer where
  /-- The name is bound to the address. -/
  | bound
  /-- The name is bound to another address. -/
  | refused (existing : Nat)
  /-- The value of the name, if it has one. -/
  | value (value : Option Nat)
  deriving DecidableEq, Repr

namespace TableOp

/-- The name that is asked about. -/
def name : TableOp → String
  | bind name _ | lookup name | resolve name => name

/-- The answer of a table to an operation, and the table as it is afterwards. -/
def apply (t : SymbolTable) : TableOp → TableAnswer × SymbolTable
  | bind name address =>
      match t.bind name address with
      | .ok t' => (.bound, t')
      | .error existing => (.refused existing, t)
  | lookup name => (.value (t.lookup name), t)
  | resolve name =>
      match t.resolve name with
      | some (v, t') => (.value (some v), t')
      | none => (.value none, t)

/-- The name that an operation binds, with its address, if it had no value before. -/
def firstBound? (t : SymbolTable) : TableOp → Option (String × Nat)
  | bind name address => if (t.lookup name).isNone then some (name, address) else none
  | lookup _ | resolve _ => none

/-- The name that becomes a variable by an operation, with the address that it is answered. -/
def allocated? (t : SymbolTable) : TableOp → Option (String × Nat)
  | resolve name =>
      if (t.lookup name).isNone then (t.resolve name).map fun answer => (name, answer.1) else none
  | bind _ _ | lookup _ => none

end TableOp

/-- The table that operations leave behind, from one that was there before. -/
def tableFrom (t : SymbolTable) (ops : List TableOp) : SymbolTable :=
  ops.foldl (fun t op => (op.apply t).2) t

/-- The table that operations leave behind. -/
def tableAfter (ops : List TableOp) : SymbolTable := tableFrom .platform ops

/-- Operations, each with the table that it meets. -/
def metFrom : SymbolTable → List TableOp → List (SymbolTable × TableOp)
  | _, [] => []
  | t, op :: ops => (t, op) :: metFrom (op.apply t).2 ops

/-- The names that were bound while they had no value, with their addresses. -/
def firstBinds (ops : List TableOp) : List (String × Nat) :=
  (metFrom .platform ops).filterMap fun met => met.2.firstBound? met.1

/-- The names that became variables, in order, with the addresses that were answered. -/
def allocations (ops : List TableOp) : List (String × Nat) :=
  (metFrom .platform ops).filterMap fun met => met.2.allocated? met.1

/-! ## §2. What one operation does. -/

section
variable {t : SymbolTable} {name : String}

theorem apply_bind_new (h : t.lookup name = none) (address : Nat) :
    (TableOp.bind name address).apply t
      = (.bound, ⟨t.bindings.insert name address, t.nextVariable⟩) := by
  simp only [TableOp.apply, SymbolTable.bind_of_none h]

theorem apply_bind_known {existing : Nat} (h : t.lookup name = some existing) (address : Nat) :
    (TableOp.bind name address).apply t
      = (if existing = address then .bound else .refused existing, t) := by
  by_cases he : existing = address
  · simp only [TableOp.apply, SymbolTable.bind_of_some h, if_pos he]
  · simp only [TableOp.apply, SymbolTable.bind_of_some h, if_neg he]

theorem apply_bind_bound_iff (address : Nat) :
    ((TableOp.bind name address).apply t).1 = .bound ↔
      t.lookup name = none ∨ t.lookup name = some address := by
  cases h : t.lookup name with
  | none => simp [apply_bind_new h]
  | some existing =>
      rw [apply_bind_known h]
      by_cases he : existing = address
      · simp [he]
      · simp [he]

theorem apply_resolve_known {v : Nat} (h : t.lookup name = some v) :
    (TableOp.resolve name).apply t = (.value (some v), t) := by
  simp only [TableOp.apply, SymbolTable.resolve_of_some h]

theorem apply_resolve_new (h : t.lookup name = none) (hleft : t.nextVariable ≤ maxAddress) :
    (TableOp.resolve name).apply t = (.value (some t.nextVariable),
      ⟨t.bindings.insert name t.nextVariable, t.nextVariable + 1⟩) := by
  simp only [TableOp.apply, SymbolTable.resolve_of_none h, if_pos hleft]

theorem apply_resolve_full (h : t.lookup name = none) (hfull : maxAddress < t.nextVariable) :
    (TableOp.resolve name).apply t = (.value none, t) := by
  simp only [TableOp.apply, SymbolTable.resolve_of_none h, if_neg (Nat.not_le_of_lt hfull)]

end

/-- All that an operation can do to a table. -/
inductive Applied (t : SymbolTable) (op : TableOp) : SymbolTable → Prop where
  /-- Nothing: it only asks, or it is refused. -/
  | unchanged (binds : op.firstBound? t = none) (allocates : op.allocated? t = none) :
      Applied t op t
  /-- A name that has no value is bound. -/
  | bound {address : Nat} (new : t.lookup op.name = none)
      (binds : op.firstBound? t = some (op.name, address)) (allocates : op.allocated? t = none) :
      Applied t op ⟨t.bindings.insert op.name address, t.nextVariable⟩
  /-- A name that has no value takes the next free address. -/
  | allocated (new : t.lookup op.name = none) (left : t.nextVariable ≤ maxAddress)
      (binds : op.firstBound? t = none)
      (allocates : op.allocated? t = some (op.name, t.nextVariable)) :
      Applied t op ⟨t.bindings.insert op.name t.nextVariable, t.nextVariable + 1⟩

theorem applied_bind (t : SymbolTable) (name : String) (address : Nat) :
    Applied t (.bind name address) ((TableOp.bind name address).apply t).2 := by
  cases h : t.lookup name with
  | none =>
      rw [apply_bind_new h]
      exact .bound h (by simp [TableOp.firstBound?, TableOp.name, h]) rfl
  | some v =>
      -- bound already: to this address or to another, nothing changes
      rw [apply_bind_known h]
      exact .unchanged (by simp [TableOp.firstBound?, h]) rfl

theorem applied_resolve (t : SymbolTable) (name : String) :
    Applied t (.resolve name) ((TableOp.resolve name).apply t).2 := by
  cases h : t.lookup name with
  | some v =>
      rw [apply_resolve_known h]
      exact .unchanged rfl (by simp [TableOp.allocated?, h])
  | none =>
      have hresolve := SymbolTable.resolve_of_none h
      by_cases hleft : t.nextVariable ≤ maxAddress
      · rw [if_pos hleft] at hresolve
        rw [apply_resolve_new h hleft]
        exact .allocated h hleft rfl (by simp [TableOp.allocated?, TableOp.name, h, hresolve])
      · rw [if_neg hleft] at hresolve
        rw [apply_resolve_full h (Nat.lt_of_not_le hleft)]
        exact .unchanged rfl (by simp [TableOp.allocated?, hresolve])

/-- **An operation leaves the table as it was, or gives one new name a value.** -/
theorem applied (t : SymbolTable) (op : TableOp) : Applied t op (op.apply t).2 := by
  cases op with
  | bind name address => exact applied_bind t name address
  | lookup name => exact .unchanged rfl rfl
  | resolve name => exact applied_resolve t name

/-- No operation takes a value away or changes it. -/
theorem Applied.extends {t t' : SymbolTable} {op : TableOp} (h : Applied t op t') :
    t.Extends t' := by
  cases h with
  | unchanged => exact .refl t
  | bound new | allocated new => exact SymbolTable.extends_insert new

/-! ## §3. What a run does. -/

theorem tableFrom_append (t : SymbolTable) (ops more : List TableOp) :
    tableFrom t (ops ++ more) = tableFrom (tableFrom t ops) more := List.foldl_append

theorem tableAfter_concat (ops : List TableOp) (op : TableOp) :
    tableAfter (ops ++ [op]) = (op.apply (tableAfter ops)).2 := tableFrom_append _ ops [op]

/-- Operations never take a value away or change it. -/
theorem extends_tableFrom (t : SymbolTable) (ops : List TableOp) : t.Extends (tableFrom t ops) := by
  induction ops generalizing t with
  | nil => exact .refl t
  | cons op ops ih => exact (applied t op).extends.trans (ih (op.apply t).2)

theorem metFrom_concat (t : SymbolTable) (ops : List TableOp) (op : TableOp) :
    metFrom t (ops ++ [op]) = metFrom t ops ++ [(tableFrom t ops, op)] := by
  induction ops generalizing t with
  | nil => rfl
  | cons first ops ih =>
      show (t, first) :: metFrom (first.apply t).2 (ops ++ [op]) = _
      rw [ih]
      rfl

theorem filterMap_concat {α β : Type} (f : α → Option β) (items : List α) (x : α) :
    (items ++ [x]).filterMap f = items.filterMap f ++ (f x).toList := by
  rw [List.filterMap_append]
  cases h : f x with
  | none => rw [List.filterMap_cons_none h]; rfl
  | some y => rw [List.filterMap_cons_some h]; rfl

theorem firstBinds_concat (ops : List TableOp) (op : TableOp) :
    firstBinds (ops ++ [op]) = firstBinds ops ++ (op.firstBound? (tableAfter ops)).toList := by
  unfold firstBinds
  rw [metFrom_concat, filterMap_concat]
  rfl

theorem allocations_concat (ops : List TableOp) (op : TableOp) :
    allocations (ops ++ [op]) = allocations ops ++ (op.allocated? (tableAfter ops)).toList := by
  unfold allocations
  rw [metFrom_concat, filterMap_concat]
  rfl

/-- What operations add up to. -/
structure Counted (ops : List TableOp) (t : SymbolTable) : Prop where
  /-- The counter has moved once for each variable. -/
  next : t.nextVariable = variableBase + (allocations ops).length
  /-- There are no more variables than addresses. -/
  left : (allocations ops).length ≤ maxVariables
  /-- The variables have the addresses from the first one on, in order. -/
  addresses : (allocations ops).map (·.2) = List.range' variableBase (allocations ops).length
  /-- A variable still has the address that it was given. -/
  values : ∀ p ∈ allocations ops, t.lookup p.1 = some p.2
  /-- A name has been added for each first binding and each variable. -/
  size : t.size = 23 + (firstBinds ops).length + (allocations ops).length

theorem counted_nil : Counted [] .platform where
  next := rfl
  left := Nat.zero_le _
  addresses := rfl
  values := fun p hp => by cases hp
  size := SymbolTable.size_platform

/-- **One more operation keeps the count.** -/
theorem Counted.apply {ops : List TableOp} (h : Counted ops (tableAfter ops)) (op : TableOp) :
    Counted (ops ++ [op]) (tableAfter (ops ++ [op])) := by
  have happlied := applied (tableAfter ops) op
  have hbinds := firstBinds_concat ops op
  have hallocates := allocations_concat ops op
  rw [tableAfter_concat]
  generalize (op.apply (tableAfter ops)).2 = t' at happlied
  cases happlied with
  | unchanged binds allocates =>
      rw [binds, Option.toList_none, List.append_nil] at hbinds
      rw [allocates, Option.toList_none, List.append_nil] at hallocates
      refine ⟨?_, ?_, ?_, ?_, ?_⟩ <;> rw [hallocates]
      · exact h.next
      · exact h.left
      · exact h.addresses
      · exact h.values
      · rw [hbinds]
        exact h.size
  | bound new binds allocates =>
      rw [binds] at hbinds
      rw [allocates, Option.toList_none, List.append_nil] at hallocates
      refine ⟨?_, ?_, ?_, ?_, ?_⟩ <;> rw [hallocates]
      · exact h.next
      · exact h.left
      · exact h.addresses
      · intro p hp
        exact SymbolTable.extends_insert new _ _ (h.values p hp)
      · have hsize := h.size
        rw [SymbolTable.size_insert new, hbinds, List.length_append]
        simp only [Option.toList_some, List.length_singleton]
        omega
  | allocated new left binds allocates =>
      rw [binds, Option.toList_none, List.append_nil] at hbinds
      rw [allocates, Option.toList_some] at hallocates
      have hnext := h.next
      have hlength : (allocations (ops ++ [op])).length = (allocations ops).length + 1 := by
        rw [hallocates, List.length_append, List.length_singleton]
      refine ⟨?_, ?_, ?_, ?_, ?_⟩
      · show (tableAfter ops).nextVariable + 1 = _
        omega
      · unfold maxVariables
        omega
      · -- the address that is taken is the one behind all that were taken before
        rw [hlength, List.range'_1_concat, ← h.addresses, hallocates, List.map_append, ← hnext]
        rfl
      · intro p hp
        rw [hallocates, List.mem_append, List.mem_singleton] at hp
        rcases hp with hp | rfl
        · exact SymbolTable.extends_insert new _ _ (h.values p hp)
        · rw [SymbolTable.lookup_insert, if_pos rfl]
      · have hsize := h.size
        rw [SymbolTable.size_insert new, hbinds, hlength]
        omega

/-- **Every run keeps the count.** -/
theorem counted (ops : List TableOp) : Counted ops (tableAfter ops) := by
  induction ops using List.reverseRecOn with
  | nil => exact counted_nil
  | append_singleton ops op ih => exact ih.apply op

section
variable {ops : List TableOp} {t : SymbolTable} (h : Counted ops t)
include h

/-- Addresses are given out in increasing order. -/
theorem Counted.increasing : (allocations ops).Pairwise fun p q => p.2 < q.2 := by
  have hlt : ((allocations ops).map (·.2)).Pairwise (· < ·) := by
    rw [h.addresses]
    exact List.pairwise_lt_range'
  exact List.pairwise_map.mp hlt

/-- No address is given out that is none of a variable. -/
theorem Counted.inRange : ∀ p ∈ allocations ops, variableBase ≤ p.2 ∧ p.2 ≤ maxAddress := by
  intro p hp
  have hmem : p.2 ∈ (allocations ops).map (·.2) := List.mem_map_of_mem hp
  have hleft := h.left
  rw [h.addresses, List.mem_range'_1] at hmem
  unfold maxVariables at hleft
  omega

/-- The counter stops at the first number that is no address. -/
theorem Counted.counter_le : t.nextVariable ≤ maxAddress + 1 := by
  have hbase : variableBase ≤ maxAddress + 1 := by decide
  have hnext := h.next
  have hleft := h.left
  unfold maxVariables at hleft
  omega

/-- There is an address left as long as not all of them were given out. -/
theorem Counted.left_iff : (allocations ops).length < maxVariables ↔ t.nextVariable ≤ maxAddress := by
  have hbase : variableBase ≤ maxAddress + 1 := by decide
  have hnext := h.next
  unfold maxVariables
  omega

end

/-! ## §4. The laws. -/

/-- The second table is the first with a value for one more name. -/
def SymbolTable.GainedBy (t t' : SymbolTable) (name : String) (v : Nat) : Prop :=
  ∀ n, t'.lookup n = if n = name then some v else t.lookup n

/-- The laws of a run.  They are said of the table that the run leaves behind and of the
operation that comes next, whichever that is. -/
structure LawfulRun (ops : List TableOp) : Prop where
  /-- A name that has a value keeps it, whatever follows. -/
  kept : ∀ more, (tableAfter ops).Extends (tableAfter (ops ++ more))
  /-- The platform's symbols have the platform's values. -/
  platform : ∀ name v, reservedSymbols.lookup name = some v →
    (tableAfter ops).lookup name = some v
  /-- Binding succeeds iff the name has no value, or that address as its value. -/
  bound_iff : ∀ name address, ((TableOp.bind name address).apply (tableAfter ops)).1 = .bound ↔
    (tableAfter ops).lookup name = none ∨ (tableAfter ops).lookup name = some address
  /-- A name without a value is bound; no other name is touched. -/
  bind_new : ∀ name address, (tableAfter ops).lookup name = none →
    (tableAfter ops).GainedBy ((TableOp.bind name address).apply (tableAfter ops)).2 name address
  /-- Binding a name where it is bound already changes nothing. -/
  bind_same : ∀ name address, (tableAfter ops).lookup name = some address →
    (TableOp.bind name address).apply (tableAfter ops) = (.bound, tableAfter ops)
  /-- Binding a name that is bound elsewhere answers where, and changes nothing. -/
  bind_other : ∀ name address existing, (tableAfter ops).lookup name = some existing →
    existing ≠ address →
    (TableOp.bind name address).apply (tableAfter ops) = (.refused existing, tableAfter ops)
  /-- Resolving a name with a value answers it, and changes nothing. -/
  resolve_known : ∀ name v, (tableAfter ops).lookup name = some v →
    (TableOp.resolve name).apply (tableAfter ops) = (.value (some v), tableAfter ops)
  /-- Resolving any other name gives it 16 and one more for each variable before it. -/
  resolve_new : ∀ name, (tableAfter ops).lookup name = none →
    (allocations ops).length < maxVariables →
    ((TableOp.resolve name).apply (tableAfter ops)).1
        = .value (some (variableBase + (allocations ops).length))
      ∧ (tableAfter ops).GainedBy ((TableOp.resolve name).apply (tableAfter ops)).2 name
          (variableBase + (allocations ops).length)
  /-- When all addresses are taken it is refused, and nothing changes. -/
  resolve_full : ∀ name, (tableAfter ops).lookup name = none →
    maxVariables ≤ (allocations ops).length →
    (TableOp.resolve name).apply (tableAfter ops) = (.value none, tableAfter ops)
  /-- A variable has the address that it was given. -/
  given : ∀ p ∈ allocations ops, (tableAfter ops).lookup p.1 = some p.2
  /-- Addresses of variables go up, so they are pairwise different. -/
  increasing : (allocations ops).Pairwise fun p q => p.2 < q.2
  /-- They lie between the first address of a variable and the last of all. -/
  inRange : ∀ p ∈ allocations ops, variableBase ≤ p.2 ∧ p.2 ≤ maxAddress
  /-- The counter never passes the first number that is no address. -/
  counter : (tableAfter ops).nextVariable ≤ maxAddress + 1
  /-- The entries come in the order of their names, each name once. -/
  sorted : (tableAfter ops).entries.Pairwise fun p q => p.1 < q.1
  /-- They are the names that have values, with these values. -/
  listed : ∀ name v, (name, v) ∈ (tableAfter ops).entries ↔
    (tableAfter ops).lookup name = some v
  /-- There are 23 of them, and one for each first binding and each variable. -/
  size : (tableAfter ops).size = 23 + (firstBinds ops).length + (allocations ops).length

/-- **Every run is lawful**: of bindings, queries and allocations in any order, with any
names and addresses, those that are refused included. -/
theorem table_runs_lawful (ops : List TableOp) : LawfulRun ops where
  kept more := by
    show (tableAfter ops).Extends (tableFrom .platform (ops ++ more))
    rw [tableFrom_append]
    exact extends_tableFrom _ more
  platform name v h := by
    apply extends_tableFrom .platform ops
    rw [SymbolTable.lookup_platform, h]
  bound_iff name address := apply_bind_bound_iff address
  bind_new name address h := by
    intro n
    rw [apply_bind_new h, SymbolTable.lookup_insert]
  bind_same name address h := by rw [apply_bind_known h, if_pos rfl]
  bind_other name address existing h hne := by rw [apply_bind_known h, if_neg hne]
  resolve_known name v h := apply_resolve_known h
  resolve_new name h hlt := by
    have hleft := (counted ops).left_iff.mp hlt
    rw [apply_resolve_new h hleft, ← (counted ops).next]
    exact ⟨rfl, fun n => SymbolTable.lookup_insert ..⟩
  resolve_full name h hle := by
    have hfull : ¬ (tableAfter ops).nextVariable ≤ maxAddress := by
      rw [← (counted ops).left_iff]
      omega
    exact apply_resolve_full h (Nat.lt_of_not_le hfull)
  given := (counted ops).values
  increasing := (counted ops).increasing
  inRange := (counted ops).inRange
  counter := (counted ops).counter_le
  sorted := SymbolTable.entries_sorted _
  listed := SymbolTable.mem_entries _
  size := (counted ops).size

-- a label may lie where the next variable will; what is bound or reserved is not allocated
example : allocations [.resolve "x", .bind "L" 17, .bind "x" 3, .resolve "L", .resolve "SP",
    .resolve "y"] = [("x", 16), ("y", 17)] := by decide +kernel

end HackPlatform.Asm
