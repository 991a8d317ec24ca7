import Haisos.LuaProcess.Tables

/-!
# Tables that are sequences

Which tables `ToJson` makes an array of, and what is in it.
-/

namespace Haisos.LuaProcess

open Hsh (Text text natText intText)
open Lua

/-! ## Numbers in a row -/

def upFrom : Int → Nat → List Int
  | _, 0 => []
  | n, count + 1 => n :: upFrom (n + 1) count

def numbered {α : Type} (n : Int) (things : List α) : List (Int × α) :=
  (upFrom n things.length).zip things

@[simp] theorem length_upFrom (n : Int) (count : Nat) : (upFrom n count).length = count := by
  induction count generalizing n with
  | zero => rfl
  | succ count ih => simp [upFrom, ih]

theorem mem_upFrom {n k : Int} {count : Nat} : k ∈ upFrom n count ↔ n ≤ k ∧ k < n + count := by
  induction count generalizing n with
  | zero =>
      simp only [upFrom, List.not_mem_nil, false_iff]
      omega
  | succ count ih =>
      simp only [upFrom, List.mem_cons, ih]
      omega

theorem pairwise_upFrom (n : Int) (count : Nat) : (upFrom n count).Pairwise (· < ·) := by
  induction count generalizing n with
  | zero => exact .nil
  | succ count ih =>
      apply List.Pairwise.cons _ (ih (n + 1))
      intro k hk
      have := (mem_upFrom.mp hk).1
      omega

theorem nodup_upFrom (n : Int) (count : Nat) : (upFrom n count).Nodup :=
  (pairwise_upFrom n count).imp fun h => Int.ne_of_lt h

theorem numbered_cons {α : Type} (n : Int) (thing : α) (things : List α) :
    numbered n (thing :: things) = (n, thing) :: numbered (n + 1) things := by
  simp [numbered, upFrom]

@[simp] theorem map_fst_numbered {α : Type} (n : Int) (things : List α) :
    (numbered n things).map Prod.fst = upFrom n things.length := by
  rw [numbered, List.map_fst_zip]
  simp

theorem getElem_numbered {α : Type} {n : Int} {things : List α} {i : Nat}
    (h : i < things.length) : (n + i, things[i]) ∈ numbered n things := by
  induction things generalizing n i with
  | nil => simp at h
  | cons thing things ih =>
      rw [numbered_cons]
      cases i with
      | zero => simp
      | succ i =>
          have hnext := @ih (n + 1) i (by simpa using h)
          have hnumber : n + ((i + 1 : Nat) : Int) = n + 1 + i := by omega
          rw [hnumber]
          exact List.mem_cons_of_mem _ hnext

variable {F : Type}

/-! ## The entries in order -/

abbrev inOrder (entries : List (Int × JsonValue F)) : List (Int × JsonValue F) :=
  entries.mergeSort fun a b => a.1 ≤ b.1

theorem pairwise_inOrder (entries : List (Int × JsonValue F)) :
    (inOrder entries).Pairwise fun a b => a.1 ≤ b.1 := by
  have htrans : ∀ a b c : Int × JsonValue F, decide (a.1 ≤ b.1) → decide (b.1 ≤ c.1) →
      decide (a.1 ≤ c.1) := by
    intro a b c hab hbc
    simp only [decide_eq_true_eq] at hab hbc ⊢
    omega
  have htotal : ∀ a b : Int × JsonValue F, decide (a.1 ≤ b.1) || decide (b.1 ≤ a.1) := by
    intro a b
    simp only [Bool.or_eq_true, decide_eq_true_eq]
    omega
  simpa using List.pairwise_mergeSort htrans htotal entries

theorem perm_inOrder (entries : List (Int × JsonValue F)) : (inOrder entries).Perm entries :=
  List.mergeSort_perm entries _

theorem isSequenceFrom_iff (n : Int) (entries : List (Int × JsonValue F)) :
    isSequenceFrom n entries ↔ entries.map Prod.fst = upFrom n entries.length := by
  induction entries generalizing n with
  | nil => simp [isSequenceFrom, upFrom]
  | cons entry entries ih => simp [isSequenceFrom, upFrom, ih]

theorem isSequenceFrom_inOrder (entries : List (Int × JsonValue F)) :
    isSequenceFrom 1 (inOrder entries) ↔
      (entries.map Prod.fst).Perm (upFrom 1 entries.length) := by
  have hperm := perm_inOrder entries
  rw [isSequenceFrom_iff, hperm.length_eq]
  constructor
  · intro h
    rw [← h]
    exact (hperm.map Prod.fst).symm
  · intro h
    apply @List.Perm.eq_of_pairwise Int (· ≤ ·) _ _ _ _ _ ((hperm.map Prod.fst).trans h)
    · intro a b _ _ hab hba
      omega
    · exact List.pairwise_map.mpr (pairwise_inOrder entries)
    · exact (pairwise_upFrom _ _).imp fun h => Int.le_of_lt h

theorem finish_isArray (entries : Entries F) :
    (∃ items, entries.finish = .array items) ↔
      entries.hasOtherKeys = false ∧ entries.intEntries ≠ [] ∧
        (entries.intEntries.map Prod.fst).Perm (upFrom 1 entries.intEntries.length) := by
  rw [← isSequenceFrom_inOrder, Entries.finish]
  by_cases hother : entries.hasOtherKeys <;> by_cases hempty : entries.intEntries = [] <;>
    by_cases hsequence : isSequenceFrom 1 (inOrder entries.intEntries) <;>
    simp [hother, hempty, hsequence]

theorem finish_items {entries : Entries F} {items : List (JsonValue F)}
    (h : entries.finish = .array items) : entries.intEntries.Perm (numbered 1 items) := by
  have hsequence := (finish_isArray entries).mp ⟨items, h⟩
  rw [← isSequenceFrom_inOrder] at hsequence
  obtain ⟨hother, hnonempty, hsorted⟩ := hsequence
  have hitems : (inOrder entries.intEntries).map Prod.snd = items := by
    simpa [Entries.finish, hother, hnonempty, hsorted] using h
  rw [isSequenceFrom_iff] at hsorted
  have hnumbered : inOrder entries.intEntries = numbered 1 items := by
    rw [numbered, ← hitems, List.length_map, ← hsorted]
    exact List.zip_of_prod rfl rfl
  rw [← hnumbered]
  exact (perm_inOrder _).symm

theorem finish_numbered {entries : Entries F} {items : List (JsonValue F)}
    (hother : entries.hasOtherKeys = false) (hnonempty : items ≠ [])
    (hperm : entries.intEntries.Perm (numbered 1 items)) : entries.finish = .array items := by
  have hlength : entries.intEntries.length = items.length := by
    have := hperm.length_eq
    simpa [numbered] using this
  have hkeys : (entries.intEntries.map Prod.fst).Perm
      (upFrom 1 entries.intEntries.length) := by
    have := hperm.map Prod.fst
    rwa [map_fst_numbered, ← hlength] at this
  have hsome : entries.intEntries ≠ [] := by
    intro hnil
    rw [hnil] at hlength
    exact hnonempty (List.length_eq_zero_iff.mp hlength.symm)
  obtain ⟨other, hfinish⟩ := (finish_isArray entries).mpr ⟨hother, hsome, hkeys⟩
  have hboth : (numbered 1 other).Perm (numbered 1 items) := (finish_items hfinish).symm.trans hperm
  have heq : numbered 1 other = numbered 1 items := by
    apply @List.Perm.eq_of_pairwise _ (fun a b => a.1 < b.1) _ _ _ _ _ hboth
    · intro a b _ _ hab hba
      omega
    · rw [← List.pairwise_map (f := Prod.fst), map_fst_numbered]
      exact pairwise_upFrom _ _
    · rw [← List.pairwise_map (f := Prod.fst), map_fst_numbered]
      exact pairwise_upFrom _ _
  have hsnd : ∀ things : List (JsonValue F), (numbered 1 things).map Prod.snd = things := by
    intro things
    rw [numbered, List.map_snd_zip]
    simp
  rw [hfinish, ← hsnd other, heq, hsnd]

/-! ## What the entries of a table come to -/

def asInteger (entry : Entry F) : Option (Int × Value F) :=
  match entry.1 with
  | .integer key => some (key, entry.2)
  | _ => none

def asString (entry : Entry F) : Option (Text × Value F) :=
  match entry.1 with
  | .string key => some (key, entry.2)
  | _ => none

def converted (convert : Value F → Except ArgumentsError (JsonValue F)) (value : Value F) :
    JsonValue F :=
  match convert value with
  | .ok json => json
  | .error _ => .null

def setKeys (fields object : List (Text × JsonValue F)) : List (Text × JsonValue F) :=
  fields.foldl (fun object field => setKey field.1 field.2 object) object

theorem convertEntries_ok {convert : Value F → Except ArgumentsError (JsonValue F)}
    {list : List (Entry F)} {entries : Entries F}
    (h : ¬ Fails (convertEntries convert list entries)) :
    convertEntries convert list entries = .ok
      { intEntries := entries.intEntries ++
          (list.filterMap asInteger).map (Prod.map id (converted convert))
        object := setKeys ((list.filterMap asString).map (Prod.map id (converted convert)))
          entries.object
        hasOtherKeys := entries.hasOtherKeys ||
          list.any fun entry => (asInteger entry).isNone } := by
  induction list generalizing entries with
  | nil => simp [convertEntries, setKeys]
  | cons entry list ih =>
      obtain ⟨key, value⟩ := entry
      have hhere : isKept key → ∃ json, convert value = .ok json := by
        intro hkept
        cases hvalue : convert value with
        | ok json => exact ⟨json, rfl⟩
        | error error =>
            rw [fails_convertEntries] at h
            exact absurd ⟨(key, value), by simp, hkept, error, hvalue⟩ h
      have hrest : ∀ entries', ¬ Fails (convertEntries convert list entries') := by
        intro entries' hfails
        rw [fails_convertEntries] at h hfails
        obtain ⟨other, hmem, hother⟩ := hfails
        exact h ⟨other, List.mem_cons_of_mem _ hmem, hother⟩
      rw [convertEntries]
      cases key with
      | integer key =>
          obtain ⟨json, hjson⟩ := hhere rfl
          simp [convertEntry, hjson, Except.map, ih (hrest _), List.filterMap_cons, asInteger,
            asString, converted]
      | string key =>
          obtain ⟨json, hjson⟩ := hhere rfl
          simp [convertEntry, hjson, Except.map, ih (hrest _), List.filterMap_cons, asInteger,
            asString, converted, setKeys]
      | nil => simp [convertEntry, ih (hrest _), List.filterMap_cons, asInteger, asString]
      | boolean b => simp [convertEntry, ih (hrest _), List.filterMap_cons, asInteger, asString]
      | number x => simp [convertEntry, ih (hrest _), List.filterMap_cons, asInteger, asString]
      | table t => simp [convertEntry, ih (hrest _), List.filterMap_cons, asInteger, asString]
      | other t => simp [convertEntry, ih (hrest _), List.filterMap_cons, asInteger, asString]

theorem asInteger_eq_some {entry : Entry F} {key : Int} {value : Value F} :
    asInteger entry = some (key, value) ↔ entry = (.integer key, value) := by
  obtain ⟨other, value'⟩ := entry
  cases other <;> simp [asInteger]

theorem mem_integerKeys {list : List (Entry F)} {key : Int} :
    key ∈ (list.filterMap asInteger).map Prod.fst ↔ .integer key ∈ list.map Prod.fst := by
  simp only [List.mem_map, List.mem_filterMap, Prod.exists, exists_and_right, exists_eq_right,
    asInteger_eq_some]
  simp

theorem nodup_integerKeys {list : List (Entry F)} (h : (list.map Prod.fst).Nodup) :
    ((list.filterMap asInteger).map Prod.fst).Nodup := by
  induction list with
  | nil => simp
  | cons entry list ih =>
      obtain ⟨key, value⟩ := entry
      simp only [List.map_cons, List.nodup_cons] at h
      cases key with
      | integer key =>
          simp only [List.filterMap_cons, asInteger, List.map_cons, List.nodup_cons]
          exact ⟨fun hmem => h.1 (mem_integerKeys.mp hmem), ih h.2⟩
      | _ => exact ih h.2

theorem no_otherKeys {list : List (Entry F)} :
    (list.any fun entry => (asInteger entry).isNone) = false ↔
      ∀ key ∈ list.map Prod.fst, ∃ n, key = .integer n := by
  simp only [List.any_eq_false, List.mem_map, forall_exists_index, and_imp,
    forall_apply_eq_imp_iff₂]
  apply forall₂_congr
  intro entry _
  obtain ⟨key, value⟩ := entry
  cases key <;> simp [asInteger]

/-! ## Sequences -/

/-- The keys of a table are the integers from 1 to a number, and no others. -/
def IsSequence (table : Table F) (n : Nat) : Prop :=
  ∀ key, key ∈ table.entries.map Prod.fst ↔ ∃ i : Nat, i < n ∧ key = .integer (1 + i)

section

variable [DecidableEq F] {runtime : Runtime F} {tables : Nat → Table F} {levels table : Nat}
  {ancestors : List Nat} {json : JsonValue F}

theorem convertValue_finish
    (h : convertValue runtime tables levels ancestors (.table table) = .ok json) :
    ∃ below, levels = below + 1 ∧
      ¬ Fails (convertEntries (convertValue runtime tables below (table :: ancestors))
        (runtime.order table (tables table).entries) {}) ∧
      ∃ entries, convertEntries (convertValue runtime tables below (table :: ancestors))
        (runtime.order table (tables table).entries) {} = .ok entries ∧ json = entries.finish := by
  cases levels with
  | zero => simp [convertValue] at h
  | succ below =>
      refine ⟨below, rfl, ?_⟩
      rw [convertValue] at h
      split_ifs at h with hcycle
      cases hentries : convertEntries (convertValue runtime tables below (table :: ancestors))
          (runtime.order table (tables table).entries) {} with
      | error error =>
          rw [hentries] at h
          cases h
      | ok entries =>
          rw [hentries] at h
          simp only [Except.map, Except.ok.injEq] at h
          exact ⟨not_fails_ok _, entries, rfl, h.symm⟩

theorem nodup_orderKeys (runtime : Runtime F) (tables : Nat → Table F) (table : Nat) :
    ((runtime.order table (tables table).entries).map Prod.fst).Nodup :=
  ((runtime.order_perm table _).map Prod.fst).nodup_iff.mpr (tables table).distinct

theorem mem_orderKeys {key : Value F} :
    key ∈ (runtime.order table (tables table).entries).map Prod.fst ↔
      key ∈ (tables table).entries.map Prod.fst :=
  ((runtime.order_perm table _).map Prod.fst).mem_iff

theorem isSequence_iff_perm {n : Nat} :
    IsSequence (tables table) n ↔
      (∀ key ∈ (runtime.order table (tables table).entries).map Prod.fst,
        ∃ k, key = .integer k) ∧
      (((runtime.order table (tables table).entries).filterMap asInteger).map Prod.fst).Perm
        (upFrom 1 n) := by
  have hnodup := nodup_integerKeys (nodup_orderKeys runtime tables table)
  constructor
  · intro hkeys
    constructor
    · intro key hkey
      obtain ⟨i, _, rfl⟩ := (hkeys key).mp (mem_orderKeys.mp hkey)
      exact ⟨_, rfl⟩
    · rw [List.perm_ext_iff_of_nodup hnodup (nodup_upFrom 1 n)]
      intro k
      rw [mem_integerKeys, mem_orderKeys, hkeys, mem_upFrom]
      constructor
      · rintro ⟨i, hi, hk⟩
        simp only [Value.integer.injEq] at hk
        omega
      · rintro ⟨hlow, hhigh⟩
        exact ⟨(k - 1).toNat, by omega, by congr; omega⟩
  · rintro ⟨hintegers, hperm⟩ key
    constructor
    · intro hkey
      rw [← @mem_orderKeys F _ runtime] at hkey
      obtain ⟨k, rfl⟩ := hintegers key hkey
      rw [← mem_integerKeys, hperm.mem_iff, mem_upFrom] at hkey
      exact ⟨(k - 1).toNat, by omega, by congr; omega⟩
    · rintro ⟨i, hi, rfl⟩
      rw [← @mem_orderKeys F _ runtime, ← mem_integerKeys, hperm.mem_iff, mem_upFrom]
      omega

/-- What is made of a table is an array where the table is a sequence. -/
theorem isArray_iff (h : convertValue runtime tables levels ancestors (.table table) = .ok json) :
    (∃ items, json = .array items) ↔ ∃ n, 1 ≤ n ∧ IsSequence (tables table) n := by
  obtain ⟨below, rfl, hgood, entries, hentries, rfl⟩ := convertValue_finish h
  rw [convertEntries_ok hgood, Except.ok.injEq] at hentries
  subst hentries
  have hfst : (Prod.fst ∘ Prod.map id (converted (convertValue runtime tables below
      (table :: ancestors))) : Int × Value F → Int) = Prod.fst := rfl
  simp only [finish_isArray, Bool.false_or, no_otherKeys, List.nil_append, List.length_map,
    List.map_map, hfst, @isSequence_iff_perm F _ runtime]
  constructor
  · rintro ⟨hintegers, hsome, hperm⟩
    refine ⟨_, ?_, hintegers, hperm⟩
    exact Nat.pos_of_ne_zero fun hzero => hsome (by simpa using hzero)
  · rintro ⟨n, hn, hintegers, hperm⟩
    have hlength := hperm.length_eq
    rw [List.length_map, length_upFrom] at hlength
    refine ⟨hintegers, ?_, ?_⟩
    · intro hnil
      rw [List.map_eq_nil_iff] at hnil
      rw [hnil] at hlength
      simp only [List.length_nil] at hlength
      omega
    · rw [hlength]
      exact hperm

theorem items_inOrder {items : List (JsonValue F)}
    (h : convertValue runtime tables levels ancestors (.table table) = .ok (.array items)) :
    IsSequence (tables table) items.length ∧
    ∀ i (hi : i < items.length), ∃ value, (.integer (1 + i), value) ∈ (tables table).entries ∧
      convertValue runtime tables (levels - 1) (table :: ancestors) value = .ok items[i] := by
  obtain ⟨below, rfl, hgood, entries, hentries, hfinish⟩ := convertValue_finish h
  have hperm := finish_items hfinish.symm
  have hother := ((finish_isArray entries).mp ⟨items, hfinish.symm⟩).1
  rw [convertEntries_ok hgood, Except.ok.injEq] at hentries
  subst hentries
  rw [Bool.false_or, no_otherKeys] at hother
  rw [List.nil_append] at hperm
  constructor
  · have hkeys := hperm.map Prod.fst
    rw [map_fst_numbered, List.map_map] at hkeys
    exact (@isSequence_iff_perm F _ runtime _ _ _).mpr ⟨hother, hkeys⟩
  · intro i hi
    have hmem := hperm.mem_iff.mpr (@getElem_numbered _ 1 items i hi)
    obtain ⟨⟨key, value⟩, hentry, heq⟩ := List.mem_map.mp hmem
    obtain ⟨rfl, hvalue⟩ := Prod.mk.inj heq
    obtain ⟨entry, hin, hsome⟩ := List.mem_filterMap.mp hentry
    rw [asInteger_eq_some] at hsome
    subst hsome
    refine ⟨value, (mem_order runtime tables).mp hin, ?_⟩
    rw [Nat.add_sub_cancel, ← hvalue, converted]
    rw [fails_convertEntries] at hgood
    cases hconvert : convertValue runtime tables below (table :: ancestors) value with
    | ok json => rfl
    | error error => exact absurd ⟨_, hin, rfl, error, hconvert⟩ hgood

end

end Haisos.LuaProcess
