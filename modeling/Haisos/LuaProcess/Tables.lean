import Haisos.LuaProcess.Arguments

/-!
# Tables that lead to tables

When `ToJson` makes nothing of a table: when a way down from it comes to a table twice, or
is longer than there are levels.
-/

namespace Haisos.LuaProcess

open Hsh (Text text natText intText)
open Lua

variable {F : Type}

def isKept : Value F → Bool
  | .integer _ => true
  | .string _ => true
  | _ => false

def Leads (tables : Nat → Table F) (outer inner : Nat) : Prop :=
  ∃ key, isKept key ∧ (key, .table inner) ∈ (tables outer).entries

def Fails {α : Type} (result : Except ArgumentsError α) : Prop := ∃ error, result = .error error

@[simp] theorem fails_error {α : Type} (error : ArgumentsError) :
    Fails (.error error : Except ArgumentsError α) := ⟨error, rfl⟩

@[simp] theorem not_fails_ok {α : Type} (a : α) : ¬ Fails (.ok a : Except ArgumentsError α) := by
  rintro ⟨error, h⟩
  cases h

@[simp] theorem fails_map {α β : Type} (f : α → β) (result : Except ArgumentsError α) :
    Fails (result.map f) ↔ Fails result := by
  cases result <;> simp [Except.map]

theorem fails_convertEntry (convert : Value F → Except ArgumentsError (JsonValue F))
    (entries : Entries F) (entry : Entry F) :
    Fails (convertEntry convert entries entry) ↔ isKept entry.1 ∧ Fails (convert entry.2) := by
  obtain ⟨key, value⟩ := entry
  cases key <;> simp [convertEntry, isKept]

theorem fails_convertEntries (convert : Value F → Except ArgumentsError (JsonValue F))
    (list : List (Entry F)) (entries : Entries F) :
    Fails (convertEntries convert list entries) ↔
      ∃ entry ∈ list, isKept entry.1 ∧ Fails (convert entry.2) := by
  induction list generalizing entries with
  | nil => simp [convertEntries]
  | cons entry list ih =>
      have hfirst := fails_convertEntry convert entries entry
      rw [convertEntries]
      cases h : convertEntry convert entries entry with
      | ok entries' =>
          rw [h] at hfirst
          simp only [ih, List.mem_cons, exists_eq_or_imp]
          simp only [not_fails_ok, false_iff] at hfirst
          simp [hfirst]
      | error error =>
          rw [h] at hfirst
          simp only [fails_error, true_iff] at hfirst
          simp [hfirst]

def IsWay (tables : Nat → Table F) (way : List Nat) : Prop := way.IsChain (Leads tables)

/-- What stops a conversion on its way down: a table of those above or one of its own twice,
or more tables than levels. -/
def Stops (levels : Nat) (ancestors way : List Nat) : Prop :=
  (∃ table ∈ way, table ∈ ancestors) ∨ ¬ way.Nodup ∨ levels < way.length

theorem stops_singleton {levels table : Nat} {ancestors : List Nat} :
    Stops (levels + 1) ancestors [table] ↔ table ∈ ancestors := by
  simp [Stops]

theorem stops_cons {levels table : Nat} {ancestors way : List Nat} (h : table ∉ ancestors) :
    Stops (levels + 1) ancestors (table :: way) ↔ Stops levels (table :: ancestors) way := by
  simp only [Stops, List.mem_cons, List.nodup_cons, List.length_cons, Nat.add_lt_add_iff_right,
    exists_eq_or_imp, h, false_or]
  constructor
  · rintro (⟨other, hway, hother⟩ | htwice | hlong)
    · exact .inl ⟨other, hway, .inr hother⟩
    · by_cases hmem : table ∈ way
      · exact .inl ⟨table, hmem, .inl rfl⟩
      · exact .inr (.inl fun hnodup => htwice ⟨hmem, hnodup⟩)
    · exact .inr (.inr hlong)
  · rintro (⟨other, hway, rfl | hother⟩ | htwice | hlong)
    · exact .inr (.inl fun hnodup => hnodup.1 hway)
    · exact .inl ⟨other, hway, hother⟩
    · exact .inr (.inl fun hnodup => htwice hnodup.2)
    · exact .inr (.inr hlong)

section

variable [DecidableEq F] (runtime : Runtime F) (tables : Nat → Table F)

theorem mem_order {table : Nat} {entry : Entry F} :
    entry ∈ runtime.order table (tables table).entries ↔ entry ∈ (tables table).entries :=
  (runtime.order_perm table _).mem_iff

theorem convertValue_scalar {value : Value F} (h : ∀ table, value ≠ .table table) (levels : Nat)
    (ancestors : List Nat) :
    convertValue runtime tables levels ancestors value = .ok (scalarToJson value) := by
  cases value with
  | table table => exact absurd rfl (h table)
  | _ => simp [convertValue]

theorem fails_convertValue_table {value : Value F} {levels : Nat} {ancestors : List Nat}
    (h : Fails (convertValue runtime tables levels ancestors value)) :
    ∃ table, value = .table table := by
  by_contra hnone
  simp only [not_exists] at hnone
  rw [convertValue_scalar runtime tables hnone] at h
  exact not_fails_ok _ h

theorem fails_step {levels table : Nat} {ancestors : List Nat} (h : table ∉ ancestors) :
    Fails (convertValue runtime tables (levels + 1) ancestors (.table table)) ↔
      ∃ inner, Leads tables table inner ∧
        Fails (convertValue runtime tables levels (table :: ancestors) (.table inner)) := by
  rw [convertValue, if_neg h, fails_map, fails_convertEntries]
  simp only [mem_order]
  constructor
  · rintro ⟨⟨key, value⟩, hentry, hkept, hfails⟩
    obtain ⟨inner, rfl⟩ := fails_convertValue_table runtime tables hfails
    exact ⟨inner, ⟨key, hkept, hentry⟩, hfails⟩
  · rintro ⟨inner, ⟨key, hkept, hentry⟩, hfails⟩
    exact ⟨(key, .table inner), hentry, hkept, hfails⟩

/-- Nothing is made of a table where some way down from it is stopped. -/
theorem fails_iff (levels : Nat) (ancestors : List Nat) (table : Nat) :
    Fails (convertValue runtime tables levels ancestors (.table table)) ↔
      ∃ way, IsWay tables (table :: way) ∧ Stops levels ancestors (table :: way) := by
  induction levels generalizing ancestors table with
  | zero =>
      simp only [convertValue, fails_error, true_iff]
      exact ⟨[], by simp [IsWay], .inr (.inr (by simp))⟩
  | succ levels ih =>
      by_cases hcycle : table ∈ ancestors
      · simp only [convertValue, hcycle, if_true, fails_error, true_iff]
        exact ⟨[], by simp [IsWay], stops_singleton.mpr hcycle⟩
      · rw [fails_step runtime tables hcycle]
        simp only [ih]
        constructor
        · rintro ⟨inner, hleads, way, hway, hstops⟩
          refine ⟨inner :: way, ?_, (stops_cons hcycle).mpr hstops⟩
          exact List.isChain_cons_cons.mpr ⟨hleads, hway⟩
        · rintro ⟨way, hway, hstops⟩
          cases way with
          | nil => exact absurd (stops_singleton.mp hstops) hcycle
          | cons inner way =>
              obtain ⟨hleads, hbelow⟩ := List.isChain_cons_cons.mp hway
              exact ⟨inner, hleads, way, hbelow, (stops_cons hcycle).mp hstops⟩

end

def IsMistake (error : ArgumentsError) : Prop := error = .nestedTooDeeply ∨ error = .cycle

theorem convertEntries_mistake {convert : Value F → Except ArgumentsError (JsonValue F)}
    (h : ∀ value error, convert value = .error error → IsMistake error) {list : List (Entry F)}
    {entries : Entries F} {error : ArgumentsError}
    (herror : convertEntries convert list entries = .error error) : IsMistake error := by
  induction list generalizing entries with
  | nil => cases herror
  | cons entry list ih =>
      obtain ⟨key, value⟩ := entry
      rw [convertEntries] at herror
      cases hentry : convertEntry convert entries (key, value) with
      | ok entries' =>
          rw [hentry] at herror
          exact ih herror
      | error error' =>
          rw [hentry] at herror
          simp only [Except.error.injEq] at herror
          subst herror
          cases hvalue : convert value with
          | ok json => cases key <;> simp [convertEntry, hvalue, Except.map] at hentry
          | error error' =>
              have hmistake := h value error' hvalue
              cases key <;> simp_all [convertEntry, Except.map]

theorem convertValue_mistake [DecidableEq F] (runtime : Runtime F) (tables : Nat → Table F)
    (levels : Nat) (ancestors : List Nat) (value : Value F) (error : ArgumentsError)
    (h : convertValue runtime tables levels ancestors value = .error error) : IsMistake error := by
  induction levels generalizing ancestors value error with
  | zero =>
      cases value with
      | table table =>
          simp only [convertValue, Except.error.injEq] at h
          exact .inl h.symm
      | _ => simp [convertValue] at h
  | succ levels ih =>
      cases value with
      | table table =>
          rw [convertValue] at h
          split_ifs at h with hcycle
          · simp only [Except.error.injEq] at h
            exact .inr h.symm
          · cases hentries : convertEntries (convertValue runtime tables levels
                (table :: ancestors)) (runtime.order table (tables table).entries) {} with
            | ok entries =>
                rw [hentries] at h
                cases h
            | error error' =>
                rw [hentries] at h
                simp only [Except.map, Except.error.injEq] at h
                subst h
                exact convertEntries_mistake (ih (table :: ancestors)) hentries
      | _ => simp [convertValue] at h

end Haisos.LuaProcess
