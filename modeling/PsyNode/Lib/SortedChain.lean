/-
PsyNode.Lib.SortedChain
**SORTED MAPS AND SORTED LINKED LISTS IN SLOTS.**  The entries of a map are stored in
numbered cells, each cell naming the key and the slot of the next entry; a new cell is
put behind its predecessor (`Linked.splice`), and following the links visits the
entries in order (`walk_eq`).
-/
import Mathlib.Tactic

namespace PsyNode.Lib.SortedChain

open List

/-! ## §1. Sorted maps. -/

section
variable {K V S : Type} [LinearOrder S] (ord : K → S)

/-- Strictly increasing in `ord key`. -/
def SortedBy (es : List (K × V)) : Prop := es.Pairwise (fun a b => ord a.1 < ord b.1)

/-- Insert an entry; an entry of an equal key keeps its key and takes the value. -/
def insertEntry (k : K) (v : V) : List (K × V) → List (K × V)
  | [] => [(k, v)]
  | e :: es =>
    if ord k < ord e.1 then (k, v) :: e :: es
    else if ord e.1 < ord k then e :: insertEntry k v es
    else (e.1, v) :: es

variable {es : List (K × V)} {k : K} {v : V}

theorem mem_insertEntry {e : K × V}
    (h : e ∈ insertEntry ord k v es) : ord e.1 = ord k ∨ e ∈ es := by
  induction es with
  | nil =>
    rw [insertEntry, mem_singleton] at h
    exact Or.inl (by rw [h])
  | cons e' es ih =>
    rw [insertEntry] at h
    split at h
    next =>
      rcases mem_cons.mp h with rfl | h
      · exact Or.inl rfl
      · exact Or.inr h
    next hnlt =>
      split at h
      next =>
        rcases mem_cons.mp h with rfl | h
        · exact Or.inr mem_cons_self
        · exact (ih h).imp_right (mem_cons_of_mem _)
      next hngt =>
        rcases mem_cons.mp h with rfl | h
        · exact Or.inl (le_antisymm (not_lt.mp hnlt) (not_lt.mp hngt))
        · exact Or.inr (mem_cons_of_mem _ h)

/-- Inserting an entry that agrees with what is there adds it to the entries. -/
theorem mem_insertEntry_iff (h : ∀ e ∈ es, ord e.1 = ord k → e = (k, v)) (e : K × V) :
    e ∈ insertEntry ord k v es ↔ e = (k, v) ∨ e ∈ es := by
  induction es with
  | nil => simp [insertEntry]
  | cons e' es ih =>
    rw [insertEntry]
    split
    next => exact mem_cons
    next hnlt =>
      split
      next =>
        rw [mem_cons, ih (fun a ha => h a (mem_cons_of_mem _ ha)), mem_cons]
        exact or_left_comm
      next hngt =>
        have heq := h e' mem_cons_self (le_antisymm (not_lt.mp hnlt) (not_lt.mp hngt))
        rw [heq, mem_cons, or_self_left]

theorem SortedBy.insertEntry (hs : SortedBy ord es) (k : K) (v : V) :
    SortedBy ord (insertEntry ord k v es) := by
  induction es with
  | nil => exact pairwise_singleton _ _
  | cons e es ih =>
    obtain ⟨hhead, htail⟩ := pairwise_cons.mp hs
    unfold SortedChain.insertEntry
    split
    next hlt =>
      exact pairwise_cons.mpr
        ⟨forall_mem_cons.mpr ⟨hlt, fun e' he' => hlt.trans (hhead e' he')⟩, hs⟩
    next =>
      split
      next hgt =>
        refine pairwise_cons.mpr ⟨fun e' he' => ?_, ih htail⟩
        rcases mem_insertEntry ord he' with heq | he'
        · rw [heq]; exact hgt
        · exact hhead e' he'
      next => exact pairwise_cons.mpr ⟨hhead, htail⟩

/-- Two entries of one key are the same entry. -/
theorem SortedBy.eq_of_ord_eq (hs : SortedBy ord es) {a b : K × V}
    (ha : a ∈ es) (hb : b ∈ es) (h : ord a.1 = ord b.1) : a = b := by
  have hnodup : (es.map (fun e => ord e.1)).Nodup := pairwise_map.mpr (hs.imp ne_of_lt)
  exact inj_on_of_nodup_map hnodup ha hb h

/-- A finite map with its entries in key order. -/
@[ext]
structure SortedMap (V : Type) where
  entries : List (K × V)
  sorted : SortedBy ord entries

variable {ord}

namespace SortedMap

/-- The map with one entry. -/
def single (k : K) (v : V) : SortedMap ord V := ⟨[(k, v)], pairwise_singleton _ _⟩

variable (m : SortedMap ord V)

/-- Look a key up; keys are compared by `ord`. -/
def get? (k : K) : Option V :=
  (m.entries.find? (fun e => ord e.1 = ord k)).map Prod.snd

/-- Insert or replace. -/
def insert (k : K) (v : V) : SortedMap ord V :=
  ⟨insertEntry ord k v m.entries, m.sorted.insertEntry ord k v⟩

/-- The last entry whose key is strictly below `k`. -/
def lastBelow (k : K) : Option (K × V) :=
  (m.entries.filter (fun e => ord e.1 < ord k)).getLast?

theorem get?_eq_none {m : SortedMap ord V} :
    m.get? k = none ↔ ∀ e ∈ m.entries, ord e.1 ≠ ord k := by
  unfold get?
  simp

theorem mem_of_get? {m : SortedMap ord V} (h : m.get? k = some v) :
    ∃ e ∈ m.entries, ord e.1 = ord k ∧ e.2 = v := by
  obtain ⟨e, he, hv⟩ := Option.map_eq_some_iff.mp h
  exact ⟨e, mem_of_find?_eq_some he, by simpa using find?_some he, hv⟩

/-- Each entry is found under its key. -/
theorem get?_of_mem {m : SortedMap ord V} {e : K × V} (h : e ∈ m.entries) :
    m.get? e.1 = some e.2 := by
  cases hfound : m.get? e.1 with
  | none => exact absurd rfl (get?_eq_none.mp hfound e h)
  | some v =>
    obtain ⟨e', he', heq, rfl⟩ := mem_of_get? hfound
    rw [m.sorted.eq_of_ord_eq ord he' h heq]

/-- **WHERE A NEW KEY GOES.**  The entries are those below the key followed by those
above it; insertion puts the new entry between them. -/
theorem exists_split (hk : m.get? k = none) (v : V) :
    ∃ lo hi, m.entries = lo ++ hi ∧ (m.insert k v).entries = lo ++ (k, v) :: hi ∧
      m.lastBelow k = lo.getLast? ∧ (∀ e ∈ lo, ord e.1 < ord k) ∧ ∀ e ∈ hi, ord k < ord e.1 := by
  have key (es : List (K × V)) (hs : SortedBy ord es) (hne : ∀ e ∈ es, ord e.1 ≠ ord k) :
      ∃ lo hi, es = lo ++ hi ∧ insertEntry ord k v es = lo ++ (k, v) :: hi ∧
        es.filter (fun e => ord e.1 < ord k) = lo ∧ (∀ e ∈ lo, ord e.1 < ord k) ∧
        ∀ e ∈ hi, ord k < ord e.1 := by
    induction es with
    | nil => exact ⟨[], [], rfl, rfl, rfl, by simp, by simp⟩
    | cons e es ih =>
      obtain ⟨hhead, htail⟩ := pairwise_cons.mp hs
      rcases lt_or_gt_of_ne (hne e mem_cons_self) with hlt | hgt
      · obtain ⟨lo, hi, rfl, hins, hfilter, hlo, hhi⟩ :=
          ih htail (fun e' he' => hne e' (mem_cons_of_mem _ he'))
        refine ⟨e :: lo, hi, rfl, ?_, ?_, ?_, hhi⟩
        · rw [insertEntry, if_neg hlt.asymm, if_pos hlt, hins]
          rfl
        · rw [filter_cons_of_pos (by simpa using hlt), hfilter]
        · exact forall_mem_cons.mpr ⟨hlt, hlo⟩
      · -- the key goes first: everything that follows is larger still
        have habove : ∀ e' ∈ e :: es, ord k < ord e'.1 :=
          forall_mem_cons.mpr ⟨hgt, fun e' he' => hgt.trans (hhead e' he')⟩
        refine ⟨[], e :: es, rfl, ?_, ?_, by simp, habove⟩
        · rw [insertEntry, if_pos hgt]
          rfl
        · rw [filter_eq_nil_iff]
          intro e' he'
          simpa using (habove e' he').le
  obtain ⟨lo, hi, hes, hins, hfilter, hlo, hhi⟩ := key m.entries m.sorted (get?_eq_none.mp hk)
  exact ⟨lo, hi, hes, hins, by unfold lastBelow; rw [hfilter], hlo, hhi⟩

end SortedMap

end

/-! ## §2. Linked cells. -/

section
variable {K : Type}

/-- What a cell holds: its key, and the key and slot of the next cell. -/
structure Cell (K : Type) where
  key : K
  nextKey : K
  next : Nat

/-- What the cell before `es` points at: its first entry, or the end mark. -/
def following (z : K) (es : List (K × Nat)) : K × Nat := es.head?.getD (z, 0)

/-- The entries, as (key, slot), are stored in the cells, each linked to the next; the
last one points at the end mark `(z, 0)`. -/
def Linked (z : K) (cell : Nat → Option (Cell K)) : List (K × Nat) → Prop
  | [] => True
  | e :: es =>
    cell e.2 = some ⟨e.1, (following z es).1, (following z es).2⟩ ∧ Linked z cell es

variable {z : K} {cell cell' : Nat → Option (Cell K)} {es lo hi : List (K × Nat)}

/-- Frame: only the cells of the entries matter. -/
theorem Linked.congr (h : Linked z cell es) (heq : ∀ e ∈ es, cell' e.2 = cell e.2) :
    Linked z cell' es := by
  induction es with
  | nil => trivial
  | cons e es ih =>
    exact ⟨(heq e mem_cons_self).trans h.1, ih h.2 (fun e' he' => heq e' (mem_cons_of_mem _ he'))⟩

variable {p : K × Nat}

/-- The cell of an entry in the middle. -/
theorem Linked.cell_eq (h : Linked z cell (lo ++ p :: hi)) :
    cell p.2 = some ⟨p.1, (following z hi).1, (following z hi).2⟩ := by
  induction lo with
  | nil => exact h.1
  | cons e lo ih => exact ih h.2

/-- **SPLICE.**  Put a fresh cell `j` with key `k` behind the entry `p`: `p` now points
at it, and it points where `p` did. -/
theorem Linked.splice {k : K} {j : Nat} (h : Linked z cell (lo ++ p :: hi))
    (hnodup : ((lo ++ p :: hi).map Prod.snd).Nodup) (hfresh : j ∉ (lo ++ p :: hi).map Prod.snd)
    (hp : cell' p.2 = some ⟨p.1, k, j⟩)
    (hj : cell' j = some ⟨k, (following z hi).1, (following z hi).2⟩)
    (hframe : ∀ i, i ≠ p.2 → i ≠ j → cell' i = cell i) :
    Linked z cell' (lo ++ p :: (k, j) :: hi) := by
  induction lo with
  | nil =>
    refine ⟨hp, hj, h.2.congr ?_⟩
    intro e he
    rw [nil_append, map_cons, nodup_cons] at hnodup
    rw [nil_append, map_cons, mem_cons, not_or] at hfresh
    have hmem : e.2 ∈ hi.map Prod.snd := mem_map_of_mem he
    refine hframe e.2 ?_ ?_
    · intro heq; exact hnodup.1 (heq ▸ hmem)
    · intro heq; exact hfresh.2 (heq ▸ hmem)
  | cons e lo ih =>
    rw [cons_append, map_cons] at hnodup hfresh
    rw [nodup_cons] at hnodup
    rw [mem_cons, not_or] at hfresh
    -- the entry before still points at the same next entry
    have hnext : following z (lo ++ p :: hi) = following z (lo ++ p :: (k, j) :: hi) := by
      cases lo with
      | nil => rfl
      | cons e' lo => rfl
    have hpmem : p.2 ∈ (lo ++ p :: hi).map Prod.snd :=
      mem_map_of_mem (mem_append_right _ mem_cons_self)
    have hcell : cell' e.2 = cell e.2 :=
      hframe e.2 (fun heq => hnodup.1 (heq ▸ hpmem)) (fun heq => hfresh.1 heq.symm)
    rw [cons_append, Linked, hnext] at h
    exact ⟨hcell.trans h.1, ih h.2 hnodup.2 hfresh.2⟩

/-- Follow the links from slot `i`, for at most the given number of cells. -/
def walk (cell : Nat → Option (Cell K)) : Nat → Nat → List (K × Nat)
  | 0, _ => []
  | n + 1, i =>
    match cell i with
    | none => []
    | some c => (c.key, i) :: if c.next = 0 then [] else walk cell n c.next

/-- **WALK.**  From the first entry the walk visits exactly the entries, in order. -/
theorem Linked.walk_eq {e : K × Nat} {n : Nat} (h : Linked z cell (e :: es))
    (hnz : ∀ e' ∈ es, e'.2 ≠ 0) (hn : es.length < n) : walk cell n e.2 = e :: es := by
  induction es generalizing e n with
  | nil =>
    obtain ⟨n, rfl⟩ : ∃ m, n = m + 1 := ⟨n - 1, by omega⟩
    rw [walk, h.1]
    rfl
  | cons e' es ih =>
    obtain ⟨n, rfl⟩ : ∃ m, n = m + 1 := ⟨n - 1, by omega⟩
    have hrest := ih h.2 (fun x hx => hnz x (mem_cons_of_mem _ hx))
      (show es.length < n by simpa using hn)
    rw [walk, h.1]
    show (e.1, e.2) :: (if e'.2 = 0 then [] else walk cell n e'.2) = _
    rw [if_neg (hnz e' mem_cons_self), hrest]

end

end PsyNode.Lib.SortedChain
