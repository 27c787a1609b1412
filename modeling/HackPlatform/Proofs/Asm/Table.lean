/-
  HackPlatform.Proofs.Asm.Table
  ────────────────────────────────
  **LAWS OF THE SYMBOL TABLE.**

  What each operation does to `lookup` and to the next free address, so that no
  later proof opens the map of bindings.

      lookup_platform   the table a program starts with
      bind_ok           binding a label
      resolve_some      resolving an operand
      resolve_none      why an operand is refused
      Extends           one table keeps the bindings of another
      mem_entries       the entries are what `lookup` says, in order
-/
import HackPlatform.Asm.SymbolTable

namespace HackPlatform.Asm

/-! ## §1. The platform's symbols. -/

/-- A name is reserved iff the platform gives it a value. -/
theorem isReserved_iff (name : String) :
    isReserved name = true ↔ ∃ v, reservedSymbols.lookup name = some v := by
  unfold isReserved
  rw [← Option.isSome_iff_exists, List.lookup_isSome_iff, List.any_eq_true]
  constructor
  · rintro ⟨b, hb, he⟩
    exact ⟨b, hb, by rwa [BEq.comm]⟩
  · rintro ⟨b, hb, he⟩
    exact ⟨b, hb, by rwa [BEq.comm]⟩

theorem isReserved_eq_false_iff (name : String) :
    isReserved name = false ↔ reservedSymbols.lookup name = none := by
  rw [← Bool.not_eq_true, isReserved_iff, Option.eq_none_iff_forall_ne_some]
  exact not_exists

/-- The platform's values fit in an address. -/
theorem reservedSymbols_le {name : String} {v : Nat}
    (h : reservedSymbols.lookup name = some v) : v ≤ maxAddress := by
  obtain ⟨l, k, hl, -⟩ := List.lookup_eq_some_iff.mp h
  have hmem : (name, v) ∈ reservedSymbols := by rw [hl]; simp
  have hall : ∀ p ∈ reservedSymbols, p.2 ≤ maxAddress := by decide
  exact hall _ hmem

/-- The platform gives each of its symbols one value. -/
theorem reservedSymbols_distinct :
    reservedSymbols.Pairwise fun p q => ¬ compare p.1 q.1 = .eq := by decide

/-- No platform symbol holds one of the marks that generated names are joined with. -/
theorem isReserved_eq_false_of_mem {name : String} {c : Char} (hc : c ∈ name.toList)
    (hmark : c = '$' ∨ c = '.') : isReserved name = false := by
  have hall : ∀ p ∈ reservedSymbols, '$' ∉ p.1.toList ∧ '.' ∉ p.1.toList := by decide
  rw [← Bool.not_eq_true]
  intro hres
  obtain ⟨p, hp, he⟩ := List.any_eq_true.mp hres
  rw [← beq_iff_eq.mp he] at hc
  rcases hmark with rfl | rfl
  · exact (hall p hp).1 hc
  · exact (hall p hp).2 hc

/-- The number of RAM addresses that variables can have. -/
def maxVariables : Nat := maxAddress + 1 - variableBase

example : maxVariables = 32752 := rfl

namespace SymbolTable

/-! ## §2. The operations. -/

theorem lookup_insert (t : SymbolTable) (name n : String) (v next : Nat) :
    (SymbolTable.mk (t.bindings.insert name v) next).lookup n
      = if n = name then some v else t.lookup n := by
  unfold lookup
  rw [Std.TreeMap.getElem?_insert]
  simp only [Std.LawfulEqCmp.compare_eq_iff_eq, eq_comm (a := name)]

/-- At first a name has the value the platform gives it. -/
theorem lookup_platform (name : String) :
    platform.lookup name = reservedSymbols.lookup name := by
  unfold lookup platform
  cases h : reservedSymbols.lookup name with
  | none =>
      apply Std.TreeMap.getElem?_ofList_of_contains_eq_false
      rw [← Bool.not_eq_true, List.contains_iff_mem]
      intro hmem
      obtain ⟨p, hp, rfl⟩ := List.mem_map.mp hmem
      have hne := List.lookup_eq_none_iff.mp h p hp
      simp at hne
  | some v =>
      obtain ⟨l, k, hl, -⟩ := List.lookup_eq_some_iff.mp h
      exact Std.TreeMap.getElem?_ofList_of_mem (Std.LawfulEqCmp.compare_eq_iff_eq.mpr rfl)
        reservedSymbols_distinct (by rw [hl]; simp)

/-- A name without a value takes the one that it is bound to. -/
theorem bind_of_none {t : SymbolTable} {name : String} (h : t.lookup name = none) (address : Nat) :
    t.bind name address = .ok ⟨t.bindings.insert name address, t.nextVariable⟩ := by
  unfold bind
  rw [h]

/-- A name with a value keeps it, and answers with it when it is bound elsewhere. -/
theorem bind_of_some {t : SymbolTable} {name : String} {v : Nat} (h : t.lookup name = some v)
    (address : Nat) : t.bind name address = if v = address then .ok t else .error v := by
  unfold bind
  rw [h]

/-- Only a name with another value is refused. -/
theorem bind_eq_error_iff {t : SymbolTable} {name : String} {address v : Nat} :
    t.bind name address = .error v ↔ t.lookup name = some v ∧ v ≠ address := by
  cases hl : t.lookup name with
  | none =>
      rw [bind_of_none hl]
      simp
  | some existing =>
      rw [bind_of_some hl]
      by_cases he : existing = address
      · rw [if_pos he]
        constructor
        · intro h
          cases h
        · rintro ⟨hv, hne⟩
          exact absurd he (Option.some.inj hv ▸ hne)
      · rw [if_neg he]
        constructor
        · intro h
          cases h
          exact ⟨rfl, he⟩
        · rintro ⟨hv, -⟩
          rw [Option.some.inj hv]

/-- Binding a name changes the value of that name only, and only from none. -/
theorem bind_ok {t t' : SymbolTable} {name : String} {address : Nat}
    (h : t.bind name address = .ok t') :
    (∀ v, t.lookup name = some v → v = address)
      ∧ (∀ n, t'.lookup n = if n = name then some address else t.lookup n)
      ∧ t'.nextVariable = t.nextVariable := by
  cases hl : t.lookup name with
  | none =>
      rw [bind_of_none hl] at h
      cases h
      exact ⟨by simp, fun n => lookup_insert .., rfl⟩
  | some existing =>
      rw [bind_of_some hl] at h
      by_cases he : existing = address
      · subst he
        rw [if_pos rfl] at h
        cases h
        refine ⟨by simp, fun n => ?_, rfl⟩
        by_cases hn : n = name
        · rw [if_pos hn, hn, hl]
        · rw [if_neg hn]
      · rw [if_neg he] at h
        cases h

theorem resolve_of_some {t : SymbolTable} {name : String} {v : Nat} (h : t.lookup name = some v) :
    t.resolve name = some (v, t) := by
  unfold resolve
  rw [h]

/-- A name without a value takes the next free address, if there is one. -/
theorem resolve_of_none {t : SymbolTable} {name : String} (h : t.lookup name = none) :
    t.resolve name = if t.nextVariable ≤ maxAddress then
      some (t.nextVariable, ⟨t.bindings.insert name t.nextVariable, t.nextVariable + 1⟩)
      else none := by
  unfold resolve
  rw [h]

/-- Resolving a name with a value changes nothing; any other gets the next free
address. -/
theorem resolve_some {t t' : SymbolTable} {name : String} {v : Nat}
    (h : t.resolve name = some (v, t')) :
    (t.lookup name = some v ∧ t' = t)
      ∨ (t.lookup name = none ∧ v = t.nextVariable ∧ v ≤ maxAddress
        ∧ (∀ n, t'.lookup n = if n = name then some v else t.lookup n)
        ∧ t'.nextVariable = v + 1) := by
  cases hl : t.lookup name with
  | some value =>
      rw [resolve_of_some hl] at h
      cases h
      exact .inl ⟨rfl, rfl⟩
  | none =>
      rw [resolve_of_none hl] at h
      by_cases hn : t.nextVariable ≤ maxAddress
      · rw [if_pos hn] at h
        cases h
        exact .inr ⟨rfl, rfl, hn, fun n => lookup_insert .., rfl⟩
      · rw [if_neg hn] at h
        cases h

/-- A name is refused only if it has no value and no address is left. -/
theorem resolve_none {t : SymbolTable} {name : String} (h : t.resolve name = none) :
    t.lookup name = none ∧ maxAddress < t.nextVariable := by
  cases hl : t.lookup name with
  | some value =>
      rw [resolve_of_some hl] at h
      cases h
  | none =>
      rw [resolve_of_none hl] at h
      by_cases hn : t.nextVariable ≤ maxAddress
      · rw [if_pos hn] at h
        cases h
      · exact ⟨rfl, Nat.lt_of_not_le hn⟩

/-! ## §3. Extension. -/

/-- Every binding of the first table is in the second. -/
def Extends (t t' : SymbolTable) : Prop :=
  ∀ name v, t.lookup name = some v → t'.lookup name = some v

theorem Extends.refl (t : SymbolTable) : t.Extends t := fun _ _ h => h

theorem Extends.trans {t u w : SymbolTable} (htu : t.Extends u) (huw : u.Extends w) :
    t.Extends w := fun name v h => huw name v (htu name v h)

/-- A value for a name that has none takes no other away. -/
theorem extends_insert {t : SymbolTable} {name : String} (h : t.lookup name = none)
    {v next : Nat} : t.Extends ⟨t.bindings.insert name v, next⟩ := by
  intro n w hn
  have hne : n ≠ name := by
    rintro rfl
    rw [h] at hn
    cases hn
  rw [lookup_insert, if_neg hne, hn]

/-- Binding takes no value away. -/
theorem extends_bind {t t' : SymbolTable} {name : String} {address : Nat}
    (h : t.bind name address = .ok t') : t.Extends t' := by
  obtain ⟨hsame, hlookup, -⟩ := bind_ok h
  intro n v hn
  rw [hlookup]
  by_cases he : n = name
  · rw [if_pos he, hsame v (he ▸ hn)]
  · rw [if_neg he, hn]

/-- A name that is resolved has its value from then on, and no other name loses its own. -/
theorem extends_resolve {t t' : SymbolTable} {name : String} {v : Nat}
    (h : t.resolve name = some (v, t')) : t.Extends t' ∧ t'.lookup name = some v := by
  rcases resolve_some h with ⟨hv, rfl⟩ | ⟨hnone, rfl, -, hlookup, -⟩
  · exact ⟨.refl t', hv⟩
  · refine ⟨fun n w hn => ?_, (hlookup name).trans (if_pos rfl)⟩
    have hne : n ≠ name := by
      rintro rfl
      rw [hnone] at hn
      cases hn
    rw [hlookup, if_neg hne, hn]

/-! ## §4. Size and entries. -/

theorem size_platform : platform.size = 23 := Std.TreeMap.size_ofList reservedSymbols_distinct

theorem size_insert {t : SymbolTable} {name : String} (h : t.lookup name = none) (v next : Nat) :
    (SymbolTable.mk (t.bindings.insert name v) next).size = t.size + 1 := by
  have hnew : t.bindings.contains name = false := by
    rw [Std.TreeMap.contains_eq_isSome_getElem?]
    show (t.lookup name).isSome = false
    rw [h]
    rfl
  unfold size
  rw [Std.TreeMap.size_insert, hnew]
  simp

/-- The entries are the names with their values. -/
theorem mem_entries (t : SymbolTable) (name : String) (v : Nat) :
    (name, v) ∈ t.entries ↔ t.lookup name = some v := Std.TreeMap.mem_toList_iff_getElem?_eq_some

/-- The entries come in the order of their names, each name once. -/
theorem entries_sorted (t : SymbolTable) : t.entries.Pairwise fun p q => p.1 < q.1 := by
  have hordered : t.entries.Pairwise fun p q => compare p.1 q.1 = .lt :=
    Std.TreeMap.ordered_keys_toList
  exact hordered.imp fun h => compareOfLessAndEq_eq_lt.mp h

end SymbolTable

end HackPlatform.Asm
