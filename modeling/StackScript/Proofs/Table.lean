import Mathlib.Data.List.Induction
import Mathlib.Data.List.Nodup
import StackScript.Table

/-!
Many insertions into a table.

* `Table.mapValues`: the same names with other values, which commutes with insertion;
* `Table.find?_insertAll`: of several values for a name the last one counts;
* `Table.insertAll_entries_ofPairs`: inserting the entries of the table of some pairs is inserting
  the pairs, so a table that was filled on its own can be poured into another one;
* `Table.nodup_names_insertAll`, `Table.mem_entries_insertAll`: names stay distinct, and each entry
  was there or was inserted;
* `Table.entries_insertAll`: insertions of new names append;
* `Table.names_ofPairs`, `Table.find?_of_mem`: the names of the table of some pairs, and the entries
  of a table without repeated names;
* `Table.exchangeAll`, `Table.lastValue`, `Table.lastValues`: insertions with their answers, what they
  answer, and what is there in the end;
* `Table.exchangeAll_ordered`: a table that is filled one by one is a map that keeps the order.
-/

namespace StackScript

namespace Table

variable {α β : Type}

/-- The same names with other values. -/
def mapValues (f : α → β) (t : Table α) : Table β :=
  ⟨t.entries.map fun e => (e.1, f e.2)⟩

@[simp] theorem names_mapValues (f : α → β) (t : Table α) : (t.mapValues f).names = t.names := by
  simp [mapValues, names, Function.comp_def]

@[simp] theorem insertAll_cons (t : Table α) (p : String × α) (ps : List (String × α)) :
    t.insertAll (p :: ps) = (t.insert p.1 p.2).insertAll ps := rfl

theorem insertAll_append (t : Table α) (ps qs : List (String × α)) :
    t.insertAll (ps ++ qs) = (t.insertAll ps).insertAll qs :=
  List.foldl_append

theorem map_insertEntry (f : α → β) (name : String) (value : α) (entries : List (String × α)) :
    (insertEntry name value entries).map (fun e => (e.1, f e.2))
      = insertEntry name (f value) (entries.map fun e => (e.1, f e.2)) := by
  induction entries with
  | nil => rfl
  | cons e rest ih =>
    obtain ⟨n, v⟩ := e
    by_cases hn : n = name
    · simp [insertEntry, hn]
    · simpa [insertEntry, hn] using ih

theorem mapValues_insert (f : α → β) (t : Table α) (name : String) (value : α) :
    (t.insert name value).mapValues f = (t.mapValues f).insert name (f value) := by
  rw [insert, mapValues, map_insertEntry]
  rfl

theorem mapValues_insertAll (f : α → β) (ps : List (String × α)) :
    ∀ t : Table α, (t.insertAll ps).mapValues f
      = (t.mapValues f).insertAll (ps.map fun p => (p.1, f p.2)) := by
  induction ps with
  | nil => exact fun t => rfl
  | cons p ps ih =>
    intro t
    rw [insertAll_cons, ih, mapValues_insert]
    rfl

theorem contains_iff {t : Table α} {name : String} : t.contains name = true ↔ name ∈ t.names := by
  rw [contains, find?, Option.isSome_map, List.find?_isSome, names, List.mem_map]
  simp only [decide_eq_true_eq]

/-- Of several values inserted for a name the last one counts. -/
theorem find?_insertAll (t : Table α) (ps : List (String × α)) (name : String) :
    (t.insertAll ps).find? name
      = ((ps.reverse.find? (·.1 = name)).map (·.2)).or (t.find? name) := by
  induction ps using List.reverseRecOn with
  | nil => rfl
  | append_singleton ps p ih =>
    rw [insertAll_append, insertAll_cons, List.reverse_append, List.reverse_singleton,
      List.singleton_append, List.find?_cons]
    show ((t.insertAll ps).insert p.1 p.2).find? name = _
    rw [find?_insert, ih]
    by_cases h : p.1 = name
    · simp [h]
    · simp [h]

/-! ### Insertions of one name, and of two -/

theorem insertEntry_insertEntry (name : String) (v w : α) (entries : List (String × α)) :
    insertEntry name w (insertEntry name v entries) = insertEntry name w entries := by
  induction entries with
  | nil => simp [insertEntry]
  | cons e rest ih =>
    obtain ⟨n, u⟩ := e
    by_cases hn : n = name
    · simp [insertEntry, hn]
    · simpa [insertEntry, hn] using ih

/-- Of two insertions of one name the first does not count. -/
theorem insert_insert (t : Table α) (name : String) (v w : α) :
    (t.insert name v).insert name w = t.insert name w :=
  congrArg Table.mk (insertEntry_insertEntry name v w t.entries)

theorem insertEntry_comm {m n : String} (hmn : m ≠ n) (v w : α) (entries : List (String × α))
    (hn : n ∈ entries.map (·.1)) :
    insertEntry n w (insertEntry m v entries) = insertEntry m v (insertEntry n w entries) := by
  induction entries with
  | nil => simp at hn
  | cons e rest ih =>
    obtain ⟨k, u⟩ := e
    by_cases hk : k = m
    · have hkn : k ≠ n := fun h => hmn (hk.symm.trans h)
      simp [insertEntry, hk, hmn]
    · by_cases hkn : k = n
      · simp [insertEntry, hkn, hmn.symm]
      · have hn' : n ∈ rest.map (·.1) := by
          rcases List.mem_cons.mp hn with h | h
          · exact absurd h.symm hkn
          · exact h
        simp [insertEntry, hk, hkn, ih hn']

/-- A name that is there keeps its place, so a new value for it can be given earlier. -/
theorem insert_comm {m n : String} (hmn : m ≠ n) (t : Table α) (v w : α) (hn : n ∈ t.names) :
    (t.insert m v).insert n w = (t.insert n w).insert m v :=
  congrArg Table.mk (insertEntry_comm hmn v w t.entries hn)

theorem mem_names_insert {t : Table α} {name query : String} {value : α} :
    query ∈ (t.insert name value).names ↔ query ∈ t.names ∨ query = name := by
  rw [names_insert]
  by_cases h : name ∈ t.names
  · rw [if_pos h]
    exact ⟨Or.inl, fun hq => hq.elim id fun e => e ▸ h⟩
  · rw [if_neg h, List.mem_append, List.mem_singleton]

theorem insertAll_insert {n : String} (w : α) (ps : List (String × α))
    (hps : n ∉ ps.map (·.1)) :
    ∀ t : Table α, n ∈ t.names → (t.insertAll ps).insert n w = (t.insert n w).insertAll ps := by
  induction ps with
  | nil => exact fun t _ => rfl
  | cons p ps ih =>
    intro t hn
    rw [List.map_cons, List.mem_cons, not_or] at hps
    rw [insertAll_cons, ih hps.2 _ (mem_names_insert.mpr (Or.inl hn)),
      insert_comm (Ne.symm hps.1) t p.2 w hn]
    rfl

/-! ### Distinct names -/

theorem nodup_names_insert {t : Table α} (h : t.names.Nodup) (name : String) (value : α) :
    (t.insert name value).names.Nodup := by
  rw [names_insert]
  by_cases hn : name ∈ t.names
  · rwa [if_pos hn]
  · rw [if_neg hn]
    exact List.nodup_append.mpr ⟨h, List.nodup_singleton _, fun a ha b hb hab =>
      hn (by rw [← List.mem_singleton.mp hb, ← hab]; exact ha)⟩

theorem nodup_names_insertAll (ps : List (String × α)) :
    ∀ {t : Table α}, t.names.Nodup → (t.insertAll ps).names.Nodup := by
  induction ps with
  | nil => exact fun h => h
  | cons p ps ih => exact fun h => ih (nodup_names_insert h p.1 p.2)

/-! ### Pouring one table into another -/

theorem insertAll_insertEntry (name : String) (value : α) (entries : List (String × α))
    (hnodup : (entries.map (·.1)).Nodup) :
    ∀ t : Table α, t.insertAll (insertEntry name value entries)
      = (t.insertAll entries).insert name value := by
  induction entries with
  | nil => exact fun t => rfl
  | cons e rest ih =>
    intro t
    obtain ⟨n, v⟩ := e
    rw [List.map_cons, List.nodup_cons] at hnodup
    by_cases hn : n = name
    · subst hn
      rw [insertEntry, if_pos rfl, insertAll_cons, insertAll_cons,
        insertAll_insert value rest hnodup.1 _ (mem_names_insert.mpr (Or.inr rfl)),
        insert_insert]
    · rw [insertEntry, if_neg hn, insertAll_cons, insertAll_cons, ih hnodup.2]

/-- Inserting the entries of the table of some pairs is inserting the pairs. -/
theorem insertAll_entries_ofPairs (t : Table α) (ps : List (String × α)) :
    t.insertAll (ofPairs ps).entries = t.insertAll ps := by
  induction ps using List.reverseRecOn with
  | nil => rfl
  | append_singleton ps p ih =>
    have hnodup : (ofPairs ps).names.Nodup := nodup_names_insertAll ps List.nodup_nil
    rw [ofPairs, insertAll_append, insertAll_append, ← ih]
    exact insertAll_insertEntry p.1 p.2 _ hnodup t

/-! ### What a filled table holds -/

theorem mem_insertEntry {name : String} {value : α} {e : String × α}
    {entries : List (String × α)} (h : e ∈ insertEntry name value entries) :
    e ∈ entries ∨ e = (name, value) := by
  induction entries with
  | nil => exact Or.inr (List.mem_singleton.mp h)
  | cons f rest ih =>
    obtain ⟨n, v⟩ := f
    by_cases hn : n = name
    · rw [insertEntry, if_pos hn] at h
      rcases List.mem_cons.mp h with h | h
      · exact Or.inr (by rw [h, hn])
      · exact Or.inl (List.mem_cons_of_mem _ h)
    · rw [insertEntry, if_neg hn] at h
      rcases List.mem_cons.mp h with h | h
      · exact Or.inl (by rw [h]; exact List.mem_cons_self)
      · exact (ih h).imp_left (List.mem_cons_of_mem _)

/-- An entry was there or was inserted. -/
theorem mem_entries_insertAll {e : String × α} (ps : List (String × α)) :
    ∀ {t : Table α}, e ∈ (t.insertAll ps).entries → e ∈ t.entries ∨ e ∈ ps := by
  induction ps with
  | nil => exact fun h => Or.inl h
  | cons p ps ih =>
    intro t h
    rcases ih h with h | h
    · exact (mem_insertEntry h).imp_right fun hp => by rw [hp]; exact List.mem_cons_self
    · exact Or.inr (List.mem_cons_of_mem _ h)

theorem insertEntry_of_not_mem {name : String} (value : α) {entries : List (String × α)}
    (h : name ∉ entries.map (·.1)) :
    insertEntry name value entries = entries ++ [(name, value)] := by
  induction entries with
  | nil => rfl
  | cons e rest ih =>
    obtain ⟨n, v⟩ := e
    rw [List.map_cons, List.mem_cons, not_or] at h
    rw [insertEntry, if_neg (Ne.symm h.1), ih h.2, List.cons_append]

/-- Insertions of distinct new names append. -/
theorem entries_insertAll (ps : List (String × α)) :
    ∀ {t : Table α}, (ps.map (·.1)).Nodup → (∀ p ∈ ps, p.1 ∉ t.names) →
      (t.insertAll ps).entries = t.entries ++ ps := by
  induction ps with
  | nil => exact fun _ _ => (List.append_nil _).symm
  | cons p ps ih =>
    intro t hnodup hnew
    rw [List.map_cons, List.nodup_cons] at hnodup
    have hrest : ∀ q ∈ ps, q.1 ∉ (t.insert p.1 p.2).names := by
      intro q hq hmem
      rcases mem_names_insert.mp hmem with h | h
      · exact hnew q (List.mem_cons_of_mem _ hq) h
      · exact hnodup.1 (h ▸ List.mem_map_of_mem hq)
    rw [insertAll_cons, ih hnodup.2 hrest, insert,
      insertEntry_of_not_mem p.2 (hnew p List.mem_cons_self), List.append_assoc]
    rfl

/-- The table of some pairs has each of their names once, in the order in which they first come. -/
theorem names_ofPairs (ps : List (String × α)) :
    (ofPairs ps).names = (ps.map (·.1)).eraseDups := by
  induction ps using List.reverseRecOn with
  | nil => rfl
  | append_singleton ps p ih =>
    have hlast : (ofPairs (ps ++ [p])).names
        = if p.1 ∈ (ofPairs ps).names then (ofPairs ps).names
          else (ofPairs ps).names ++ [p.1] := by
      rw [ofPairs, insertAll_append]
      exact names_insert _ _ _
    rw [hlast, ih, List.map_append, List.map_singleton, List.eraseDups_append, List.removeAll]
    by_cases h : p.1 ∈ ps.map (·.1)
    · rw [if_pos (List.mem_eraseDups.mpr h)]
      simp [h]
    · rw [if_neg fun hmem => h (List.mem_eraseDups.mp hmem)]
      simp [h, List.eraseDups_cons]

/-- Where no name comes twice, every entry is found under its name. -/
theorem find?_of_mem {t : Table α} (h : t.names.Nodup) {e : String × α} (he : e ∈ t.entries) :
    t.find? e.1 = some e.2 := by
  obtain ⟨before, after, hentries⟩ := List.append_of_mem he
  rw [names, hentries, List.map_append, List.map_cons] at h
  have hnone : before.find? (·.1 = e.1) = none := by
    rw [List.find?_eq_none]
    intro f hf hfe
    exact (List.nodup_append.mp h).2.2 f.1 (List.mem_map_of_mem hf) e.1 List.mem_cons_self
      (of_decide_eq_true hfe)
  rw [find?, hentries, List.find?_append, hnone, Option.none_or]
  simp

/-! ### Insertions that answer what they replace -/

/-- Exchange values one after the other: what each name had before, and the table behind all. -/
def exchangeAll (t : Table α) : List (String × α) → List (Option α) × Table α
  | [] => ([], t)
  | p :: ps =>
    let (old, t) := t.exchange p.1 p.2
    let (olds, t) := exchangeAll t ps
    (old :: olds, t)

/-- The value that pairs give to a name last. -/
def lastValue (ps : List (String × α)) (name : String) : Option α :=
  (ps.reverse.find? (·.1 = name)).map (·.2)

/-- The names of pairs in the order in which they first come, with the values that they have last. -/
def lastValues (ps : List (String × α)) : List (String × α) :=
  (ps.map (·.1)).eraseDups.filterMap fun name => (lastValue ps name).map (name, ·)

theorem exchangeAll_snd (ps : List (String × α)) :
    ∀ t : Table α, (t.exchangeAll ps).2 = t.insertAll ps := by
  induction ps with
  | nil => exact fun t => rfl
  | cons p ps ih => exact fun t => ih (t.insert p.1 p.2)

/-- Each exchange answers what the table before it has. -/
theorem getElem?_exchangeAll_fst (ps : List (String × α)) :
    ∀ (t : Table α) (i : Nat),
      (t.exchangeAll ps).1[i]? = ps[i]?.map fun p => (t.insertAll (ps.take i)).find? p.1 := by
  induction ps with
  | nil => exact fun t i => rfl
  | cons p ps ih =>
    intro t i
    cases i with
    | zero => rfl
    | succ i => exact ih (t.insert p.1 p.2) i

theorem find?_ofPairs (ps : List (String × α)) (name : String) :
    (ofPairs ps).find? name = lastValue ps name := by
  rw [ofPairs, find?_insertAll]
  exact Option.or_none

theorem isSome_lastValue {ps : List (String × α)} {name : String} :
    (lastValue ps name).isSome = true ↔ name ∈ ps.map (·.1) := by
  simp [lastValue]

theorem entries_eq_filterMap {t : Table α} (h : t.names.Nodup) :
    t.entries = t.names.filterMap fun name => (t.find? name).map (name, ·) := by
  have hentry : ∀ e ∈ t.entries, (t.find? e.1).map (e.1, ·) = some e := fun e he => by
    rw [find?_of_mem h he]
    rfl
  rw [names, List.filterMap_map]
  calc t.entries = t.entries.filterMap some := List.filterMap_some.symm
    _ = _ := (List.filterMap_congr hentry).symm

/-- Whatever is inserted into an empty table one by one, the table is a map that keeps the order. Each
insertion has answered the value that its name had been given last. The names are distinct and stand in
the order in which they first came; the value of a name is the one that came last, and names that never
came have none. The entries are those names with those values, and they are what is counted. -/
theorem exchangeAll_ordered (ps : List (String × α)) :
    (empty.exchangeAll ps).2 = ofPairs ps ∧
      (∀ i, (empty.exchangeAll ps).1[i]? = ps[i]?.map fun p => lastValue (ps.take i) p.1) ∧
      (ofPairs ps).names.Nodup ∧ (ofPairs ps).names = (ps.map (·.1)).eraseDups ∧
      (∀ name, (ofPairs ps).find? name = lastValue ps name ∧
        (ofPairs ps).contains name = (lastValue ps name).isSome ∧
        ((lastValue ps name).isSome = true ↔ name ∈ ps.map (·.1))) ∧
      (ofPairs ps).entries = lastValues ps ∧ (ofPairs ps).names = (lastValues ps).map (·.1) ∧
      (ofPairs ps).size = (lastValues ps).length ∧
      (ofPairs ps).isEmpty = (lastValues ps).isEmpty := by
  have hnodup : (ofPairs ps).names.Nodup := nodup_names_insertAll ps List.nodup_nil
  have hanswers : ∀ i, (empty.exchangeAll ps).1[i]?
      = ps[i]?.map fun p => lastValue (ps.take i) p.1 := by
    intro i
    rw [getElem?_exchangeAll_fst]
    congr 1
    funext p
    exact find?_ofPairs (ps.take i) p.1
  have hentries : (ofPairs ps).entries = lastValues ps := by
    rw [entries_eq_filterMap hnodup, names_ofPairs]
    simp only [find?_ofPairs, lastValues]
  refine ⟨exchangeAll_snd ps empty, hanswers, hnodup, names_ofPairs ps,
    fun name => ⟨find?_ofPairs ps name, ?_, isSome_lastValue⟩, hentries, ?_, ?_, ?_⟩
  · rw [contains, find?_ofPairs]
  · rw [names, hentries]
  · rw [size, hentries]
  · rw [isEmpty, hentries]

/-- A name that comes again keeps its place. -/
example : (empty : Table Nat).exchangeAll [("a", 1), ("b", 2), ("a", 3)]
    = ([none, none, some 1], ⟨[("a", 3), ("b", 2)]⟩) := rfl

end Table

end StackScript
