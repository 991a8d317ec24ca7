import Haisos.LuaProcess.Bridge

/-!
# A script's arguments

`ToJson` on any tables: what it makes of a value, read off the tables alone, and when
it makes nothing of it.
-/

namespace Haisos.LuaProcess

open Hsh (Text text natText intText)
open Lua StateExcept

variable {F : Type} [DecidableEq F]

/-- What an entry adds, `convert` being the conversion of its value. -/
def convertEntry (convert : Value F → Except ArgumentsError (JsonValue F)) (entries : Entries F)
    (entry : Entry F) : Except ArgumentsError (Entries F) :=
  match entry.1 with
  | .integer key =>
      (convert entry.2).map fun value =>
        { entries with intEntries := entries.intEntries ++ [(key, value)] }
  | .string key =>
      (convert entry.2).map fun value =>
        { entries with object := setKey key value entries.object, hasOtherKeys := true }
  | _ => .ok { entries with hasOtherKeys := true }

def convertEntries (convert : Value F → Except ArgumentsError (JsonValue F)) :
    List (Entry F) → Entries F → Except ArgumentsError (Entries F)
  | [], entries => .ok entries
  | entry :: rest, entries =>
      match convertEntry convert entries entry with
      | .ok entries => convertEntries convert rest entries
      | .error error => .error error

/-- What `ToJson` makes of a value, without a stack. -/
def convertValue (runtime : Runtime F) (tables : Nat → Table F) :
    Nat → List Nat → Value F → Except ArgumentsError (JsonValue F)
  | levels, ancestors, .table table =>
      match levels with
      | 0 => .error .nestedTooDeeply
      | levels + 1 =>
          if table ∈ ancestors then .error .cycle
          else
            (convertEntries (convertValue runtime tables levels (table :: ancestors))
              (runtime.order table (tables table).entries) {}).map Entries.finish
  | _, _, value => .ok (scalarToJson value)

omit [DecidableEq F] in
theorem convertEntries_cons (convert : Value F → Except ArgumentsError (JsonValue F))
    (entry : Entry F) (rest : List (Entry F)) (entries : Entries F) :
    convertEntries convert (entry :: rest) entries =
      (convertEntry convert entries entry).bind (convertEntries convert rest) := by
  rw [convertEntries]
  cases convertEntry convert entries entry <;> rfl

theorem map_eq_bind {α β : Type} (result : Except ArgumentsError α) (f : α → β) :
    result.map f = result.bind fun a => .ok (f a) := by
  cases result <;> rfl

/-- A conversion ends as a value's does, and leaves the state as it was if it succeeds. -/
def Gives {α : Type} (action : Convert F α) (before after : Conversion F)
    (result : Except ArgumentsError α) : Prop :=
  ∃ conversion, exec action before = (result, conversion) ∧
    ∀ a, result = .ok a → conversion = after

omit [DecidableEq F] in
theorem Gives.bind {α β : Type} {action : Convert F α} {next : α → Convert F β}
    {before between after : Conversion F} {result : Except ArgumentsError α}
    {last : α → Except ArgumentsError β} (h : Gives action before between result)
    (hnext : ∀ a, result = .ok a → Gives (next a) between after (last a)) :
    Gives (action >>= next) before after (result.bind last) := by
  obtain ⟨conversion, hexec, hafter⟩ := h
  cases result with
  | error error =>
      refine ⟨conversion, ?_, ?_⟩
      · rw [exec_bind, hexec]
        rfl
      · intro b hb
        cases hb
  | ok a =>
      obtain ⟨last', hlast, hend⟩ := hnext a rfl
      refine ⟨last', ?_, hend⟩
      rw [exec_bind, hexec]
      simp only
      rw [hafter a rfl, hlast]
      rfl

omit [DecidableEq F] in
theorem Gives.of_pure {α : Type} (a : α) (conversion : Conversion F) :
    Gives (pure a : Convert F α) conversion conversion (.ok a) :=
  ⟨conversion, rfl, fun _ _ => rfl⟩

omit [DecidableEq F] in
theorem exec_askLua {α : Type} (f : State F → α) (conversion : Conversion F) :
    exec (askLua f) conversion = (.ok (f conversion.lua), conversion) := rfl

omit [DecidableEq F] in
theorem Gives.map {α β : Type} {action : Convert F α} {before after : Conversion F}
    {result : Except ArgumentsError α} (h : Gives action before after result) (f : α → β) :
    Gives (do pure (f (← action))) before after (result.map f) := by
  have hlast : ∀ a, result = .ok a →
      Gives (pure (f a) : Convert F β) after after (.ok (f a)) := by
    intro a _
    exact Gives.of_pure (f a) after
  have hbind := @Gives.bind F α β action (fun a => pure (f a)) before after after result
    (fun a => .ok (f a)) h hlast
  cases result <;> exact hbind

omit [DecidableEq F] in
theorem Gives.ask {α β : Type} {f : State F → α} {next : α → Convert F β}
    {before after : Conversion F} {result : Except ArgumentsError β}
    (h : Gives (next (f before.lua)) before after result) :
    Gives (askLua f >>= next) before after result := by
  obtain ⟨conversion, hexec, hafter⟩ := h
  refine ⟨conversion, ?_, hafter⟩
  rw [exec_bind, exec_askLua]
  exact hexec

omit [DecidableEq F] in
theorem gives_readEntry {action : Convert F (JsonValue F)}
    {convert : Value F → Except ArgumentsError (JsonValue F)} {conversion : Conversion F}
    {entry : Entry F} {below : List (Value F)}
    (hstack : conversion.lua.stack = entry.2 :: entry.1 :: below)
    (haction : Gives action conversion conversion (convert entry.2)) (entries : Entries F) :
    Gives (readEntry action entries) conversion conversion
      (convertEntry convert entries entry) := by
  obtain ⟨key, value⟩ := entry
  have hkey : conversion.lua.valueAt (-2) = key := by simp [State.valueAt, hstack]
  apply Gives.ask
  rw [hkey]
  cases key with
  | integer n => exact haction.map _
  | string s => exact haction.map _
  | nil => exact Gives.of_pure _ _
  | boolean b => exact Gives.of_pure _ _
  | number x => exact Gives.of_pure _ _
  | table t => exact Gives.of_pure _ _
  | other t => exact Gives.of_pure _ _

omit [DecidableEq F] in
theorem Gives.step {α β : Type} {f : State F → α × State F} {next : α → Convert F β}
    {before after : Conversion F} {result : Except ArgumentsError β}
    (h : Gives (next (f before.lua).1) { before with lua := (f before.lua).2 } after result) :
    Gives (onLua f >>= next) before after result := by
  obtain ⟨conversion, hexec, hafter⟩ := h
  exact ⟨conversion, by rw [exec_bind]; exact hexec, hafter⟩

omit [DecidableEq F] in
theorem Gives.change {β : Type} {f : Conversion F → Conversion F} {next : Unit → Convert F β}
    {before after : Conversion F} {result : Except ArgumentsError β}
    (h : Gives (next ()) (f before) after result) :
    Gives (modify f >>= next) before after result := by
  obtain ⟨conversion, hexec, hafter⟩ := h
  exact ⟨conversion, by rw [exec_bind]; exact hexec, hafter⟩

section

variable {runtime : Runtime F} {lua : State F} {key : Value F} {base : List (Value F)}
  {index : Int} {table : Nat}

omit [DecidableEq F] in
theorem valueAt_above (hpos : 0 < index) (hindex : index.toNat ≤ base.length)
    (htable : ({ lua with stack := base } : State F).valueAt index = .table table) :
    ({ lua with stack := key :: base } : State F).valueAt index = .table table := by
  rw [← htable]
  exact State.valueAt_append [key] rfl hpos hindex

end

theorem gives_readEntries {runtime : Runtime F} {action : Convert F (JsonValue F)}
    {convert : Value F → Except ArgumentsError (JsonValue F)} {lua : State F}
    {ancestors : List Nat} {base : List (Value F)} {index : Int} {table : Nat}
    (hpos : 0 < index) (hindex : index.toNat ≤ base.length)
    (htable : ({ lua with stack := base } : State F).valueAt index = .table table)
    (haction : ∀ value below,
      Gives action ⟨{ lua with stack := value :: below }, ancestors⟩
        ⟨{ lua with stack := value :: below }, ancestors⟩ (convert value))
    {before after : List (Entry F)}
    (hentries : runtime.order table (lua.tables table).entries = before ++ after)
    {key : Value F} (hkey : key = .nil ∨ key ∈ (lua.tables table).entries.map Prod.fst)
    (hnext : entryAfter (runtime.order table (lua.tables table).entries) key = after.head?)
    {fuel : Nat} (hfuel : after.length < fuel) (entries : Entries F) :
    Gives (readEntries runtime action index fuel entries)
      ⟨{ lua with stack := key :: base }, ancestors⟩ ⟨{ lua with stack := base }, ancestors⟩
      (convertEntries convert after entries) := by
  induction after generalizing before key fuel entries with
  | nil =>
      obtain ⟨fuel, rfl⟩ : ∃ n, fuel = n + 1 := ⟨fuel - 1, by simp at hfuel; omega⟩
      rw [readEntries]
      apply Gives.step
      simp only [runtime.nextEntry_none hpos.ne' (valueAt_above hpos hindex htable) rfl hkey hnext]
      exact Gives.of_pure _ _
  | cons entry after ih =>
      obtain ⟨fuel, rfl⟩ : ∃ n, fuel = n + 1 := ⟨fuel - 1, by simp at hfuel; omega⟩
      rw [readEntries]
      apply Gives.step
      simp only [runtime.nextEntry_some hpos.ne' (valueAt_above hpos hindex htable) rfl hkey hnext,
        if_true]
      have hperm := runtime.order_perm table (lua.tables table).entries
      have hmem : entry ∈ (lua.tables table).entries := by
        rw [← hperm.mem_iff, hentries]
        simp
      have hbehind : entryAfter (runtime.order table (lua.tables table).entries) entry.1 =
          after.head? := by
        rw [hentries] at hperm ⊢
        apply entryAfter_key
        · exact (hperm.map Prod.fst).nodup_iff.mpr (lua.tables table).distinct
        · exact ((lua.tables table).filled entry hmem).1
      rw [convertEntries_cons]
      apply (gives_readEntry rfl (haction _ _) entries).bind
      intro entries' _
      apply Gives.change
      have hfuel' : after.length < fuel := by
        simp only [List.length_cons] at hfuel
        omega
      exact @ih (before ++ [entry]) (by simpa using hentries) entry.1
        (.inr (List.mem_map_of_mem hmem)) hbehind fuel hfuel' entries'

omit [DecidableEq F] in
theorem Gives.throw {α : Type} (error : ArgumentsError) (before after : Conversion F) :
    Gives (throw error : Convert F α) before after (.error error) :=
  ⟨before, rfl, fun _ h => by cases h⟩

omit [DecidableEq F] in
theorem Gives.read {β : Type} {next : Conversion F → Convert F β} {before after : Conversion F}
    {result : Except ArgumentsError β} (h : Gives (next before) before after result) :
    Gives (get >>= next) before after result := by
  obtain ⟨conversion, hexec, hafter⟩ := h
  exact ⟨conversion, by rw [exec_bind]; exact hexec, hafter⟩

/-- `ToJson` gives what the tables say, and leaves everything as it was. -/
theorem gives_toJson {runtime : Runtime F} (hroom : ∀ state n, runtime.checkStack state n)
    (levels : Nat) (conversion : Conversion F) {index : Int}
    (hpos : 0 < conversion.lua.absIndex index)
    (hindex : (conversion.lua.absIndex index).toNat ≤ conversion.lua.stack.length) :
    Gives (toJson runtime levels index) conversion conversion
      (convertValue runtime conversion.lua.tables levels conversion.ancestors
        (conversion.lua.valueAt index)) := by
  induction levels generalizing conversion index with
  | zero =>
      rw [toJson]
      apply Gives.ask
      cases conversion.lua.valueAt index with
      | table table => exact Gives.throw _ _ _
      | _ => exact Gives.of_pure _ _
  | succ levels ih =>
      rw [toJson]
      apply Gives.ask
      apply Gives.ask
      rw [State.valueAt_absIndex hpos hindex]
      cases hvalue : conversion.lua.valueAt index with
      | table table =>
          apply Gives.read
          simp only [convertValue]
          by_cases hcycle : table ∈ conversion.ancestors
          · simp only [hcycle, if_true]
            exact Gives.throw _ _ _
          · simp only [hcycle, if_false, hroom, not_true]
            apply Gives.change
            apply Gives.change
            have hvalueAbs : conversion.lua.valueAt (conversion.lua.absIndex index) =
                .table table := by
              rw [State.valueAt_absIndex hpos hindex, hvalue]
            have hfuel : (runtime.order table (conversion.lua.tables table).entries).length <
                (conversion.lua.tables table).entries.length + 1 := by
              rw [(runtime.order_perm table _).length_eq]
              omega
            have haction : ∀ (value : Value F) below,
                Gives (toJson runtime levels (-1))
                  ⟨{ conversion.lua with stack := value :: below },
                    table :: conversion.ancestors⟩
                  ⟨{ conversion.lua with stack := value :: below },
                    table :: conversion.ancestors⟩
                  (convertValue runtime conversion.lua.tables levels
                    (table :: conversion.ancestors) value) := by
              intro value below
              have htop : ({ conversion.lua with stack := value :: below } : State F).absIndex
                  (-1) = below.length + 1 := by
                simp [State.absIndex, State.getTop]
              apply @ih ⟨{ conversion.lua with stack := value :: below },
                table :: conversion.ancestors⟩ (-1)
              · simp only [htop]
                omega
              · simp only [htop, List.length_cons]
                omega
            rw [map_eq_bind]
            apply (@gives_readEntries F _ runtime _ _ conversion.lua
              (table :: conversion.ancestors) conversion.lua.stack _ table hpos hindex hvalueAbs
              haction [] _ rfl .nil (.inl rfl) (entryAfter_nil _) _ hfuel {}).bind
            intro entries _
            apply Gives.change
            exact Gives.of_pure _ _
      | _ => exact Gives.of_pure _ _

end Haisos.LuaProcess
