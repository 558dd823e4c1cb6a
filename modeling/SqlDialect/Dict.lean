/-!
# Dictionaries with text keys

A finite map from texts to values, kept as a list of entries in increasing order of the keys.  The
order is part of the type: two dictionaries with the same entries are equal, and a writer that lists
the entries needs no sorting.  Texts are ordered by their code points.
-/

namespace SqlDialect

/-- A map from texts to values, its entries in strictly increasing order of their keys. -/
structure Dict (α : Type) where
  entries : List (String × α)
  sorted : entries.Pairwise (·.1 < ·.1) := by simp

namespace Dict

variable {α : Type}

instance : Inhabited (Dict α) := ⟨{ entries := [] }⟩

instance [DecidableEq α] : DecidableEq (Dict α) := fun a b =>
  decidable_of_iff (a.entries = b.entries) (by cases a; cases b; simp)

@[ext] theorem ext {a b : Dict α} (h : a.entries = b.entries) : a = b := by
  cases a; cases b; simp_all

/-- The dictionary without entries. -/
def empty : Dict α := { entries := [] }

def isEmpty (d : Dict α) : Bool := d.entries.isEmpty

/-- The value at a key. -/
def get? (d : Dict α) (key : String) : Option α :=
  (d.entries.find? (·.1 == key)).map (·.2)

/-- The entries with `key` bound to `value`: in its place, or where the order wants a new one. -/
def insertEntry (key : String) (value : α) : List (String × α) → List (String × α)
  | [] => [(key, value)]
  | entry :: rest =>
    if key < entry.1 then (key, value) :: entry :: rest
    else if key = entry.1 then (key, value) :: rest
    else entry :: insertEntry key value rest

theorem mem_insertEntry {key : String} {value : α} {entry : String × α} :
    ∀ {entries : List (String × α)}, entry ∈ insertEntry key value entries →
      entry = (key, value) ∨ entry ∈ entries
  | [], h => by simpa [insertEntry] using h
  | head :: rest, h => by
    rw [insertEntry] at h
    split at h
    · simpa using h
    · split at h
      · rcases List.mem_cons.1 h with h | h
        · exact .inl h
        · exact .inr (List.mem_cons_of_mem _ h)
      · rcases List.mem_cons.1 h with h | h
        · exact .inr (h ▸ List.mem_cons_self)
        · exact (mem_insertEntry h).imp id (List.mem_cons_of_mem _)

theorem pairwise_insertEntry {key : String} {value : α} :
    ∀ {entries : List (String × α)}, entries.Pairwise (·.1 < ·.1) →
      (insertEntry key value entries).Pairwise (·.1 < ·.1)
  | [], _ => by simp [insertEntry]
  | head :: rest, h => by
    have ⟨below, rest_sorted⟩ := List.pairwise_cons.1 h
    rw [insertEntry]
    split
    · rename_i before
      refine List.pairwise_cons.2 ⟨fun entry mem => ?_, h⟩
      rcases List.mem_cons.1 mem with rfl | mem
      · exact before
      · exact String.lt_trans before (below _ mem)
    · rename_i notBefore
      split
      · rename_i same
        exact List.pairwise_cons.2 ⟨fun entry mem => same ▸ below _ mem, rest_sorted⟩
      · rename_i other
        refine List.pairwise_cons.2 ⟨fun entry mem => ?_, pairwise_insertEntry rest_sorted⟩
        rcases mem_insertEntry mem with rfl | mem
        · exact Std.lt_of_le_of_ne (Std.not_lt.mp notBefore) (Ne.symm other)
        · exact below _ mem

/-- The dictionary with `key` bound to `value`, in place of an earlier binding. -/
def insert (d : Dict α) (key : String) (value : α) : Dict α where
  entries := insertEntry key value d.entries
  sorted := pairwise_insertEntry d.sorted

/-- The dictionary without the key. -/
def erase (d : Dict α) (key : String) : Dict α where
  entries := d.entries.filter (·.1 != key)
  sorted := d.sorted.filter _

/-- The dictionary of a list of bindings, of which a later one for the same key wins. -/
def ofList (bindings : List (String × α)) : Dict α :=
  bindings.foldl (fun d binding => d.insert binding.1 binding.2) empty

/-- A key above all others comes last. -/
theorem insertEntry_of_lt {key : String} {value : α} :
    ∀ {entries : List (String × α)}, (∀ entry ∈ entries, entry.1 < key) →
      insertEntry key value entries = entries ++ [(key, value)]
  | [], _ => rfl
  | entry :: rest, h => by
    have above : entry.1 < key := h entry List.mem_cons_self
    have notBelow : ¬ key < entry.1 := fun below => String.lt_irrefl _ (String.lt_trans above below)
    have other : key ≠ entry.1 := fun same => String.lt_irrefl _ (same ▸ above)
    rw [insertEntry, if_neg notBelow, if_neg other,
      insertEntry_of_lt fun entry mem => h entry (List.mem_cons_of_mem _ mem), List.cons_append]

theorem entries_foldl_insert :
    ∀ {bindings : List (String × α)} {d : Dict α},
      (d.entries ++ bindings).Pairwise (·.1 < ·.1) →
        (bindings.foldl (fun d binding => d.insert binding.1 binding.2) d).entries =
          d.entries ++ bindings
  | [], d, _ => by simp
  | binding :: rest, d, h => by
    have last : (d.insert binding.1 binding.2).entries = d.entries ++ [binding] :=
      insertEntry_of_lt fun entry mem =>
        (List.pairwise_append.1 h).2.2 entry mem binding List.mem_cons_self
    rw [List.foldl_cons, entries_foldl_insert (by simpa [last] using h), last]
    simp

/-- The bindings of a dictionary make it again. -/
theorem ofList_entries (d : Dict α) : ofList d.entries = d :=
  ext (by rw [ofList, entries_foldl_insert (by simpa [empty] using d.sorted)]; rfl)

end Dict

end SqlDialect
