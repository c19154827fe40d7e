/-
PsyNode.Nca.Levels
**THE LEVELS OF THE NCA PROOFS** — `get_index_levels` of
`UpdateNCAProofsWithDependencies`.

Each round of the loop takes the indices whose two dependencies are absent (negative) or solved.
The round is the length of the longest chain of dependencies of its indices, so a round without
an index means that the indices left over depend on each other in a cycle.
-/
import PsyNode.Lib.ExceptBind
import PsyNode.Lib.LongestChain

namespace PsyNode.Nca

open Lib List

/-! ## §1. The loop. -/

structure UpdateNCAProofsWithDependencies (Proof : Type) where
  ncaProofs : List Proof
  dependencies : List (Int × Int)

/-- Whether a round takes the index. -/
def isSolvable (dependencies : List (Int × Int)) (solved : List Int) (x : Nat) : Bool :=
  match dependencies[x]? with
  | some (l, r) => (l ≤ -1 || solved.contains l) && (r ≤ -1 || solved.contains r)
  | none => false

/-- The rounds while values remain; there are at most as many as values. -/
def levelLoop (dependencies : List (Int × Int)) :
    Nat → List Int → List Nat → Except String (List (List Nat))
  | 0, _, _ => .ok []
  | fuel + 1, solved, remaining =>
    if remaining.isEmpty then .ok []
    else
      let level := remaining.filter (isSolvable dependencies solved)
      if level.isEmpty then
        .error "NCA dependency graph contains a cycle or an unsatisfied dependency"
      else do
        let levels ← levelLoop dependencies fuel (solved ++ level.map Int.ofNat)
          (remaining.filter fun x => !isSolvable dependencies solved x)
        .ok (level :: levels)

variable {Proof : Type} (self : UpdateNCAProofsWithDependencies Proof)

def UpdateNCAProofsWithDependencies.getIndexLevels : Except String (List (List Nat)) :=
  let totalValues := self.ncaProofs.length
  if self.dependencies.length ≠ totalValues then
    .error "NCA dependency count must match proof count"
  else
    match (self.dependencies.flatMap fun d => [d.1, d.2]).find?
        (fun d => (totalValues : Int) ≤ d) with
    | some dependency => .error s!"NCA dependency index {dependency} is out of range"
    | none => levelLoop self.dependencies totalValues [] (List.range totalValues)

/-! ## §2. Rounds and chains. -/

/-- The dependency relation of a table. -/
def DependsOn (dependencies : List (Int × Int)) (x y : Nat) : Prop :=
  ∃ d, dependencies[x]? = some d ∧ (d.1 = y ∨ d.2 = y)

/-- Every dependency is absent or an index of the table. -/
def InRange (dependencies : List (Int × Int)) : Prop :=
  ∀ d ∈ dependencies, d.1 < dependencies.length ∧ d.2 < dependencies.length

variable {deps : List (Int × Int)} {solved : List Int} {r : Nat}

section
variable (hrange : InRange deps)
  (hsolved : ∀ y : Nat, (y : Int) ∈ solved ↔ y < deps.length ∧ ChainsBelow (DependsOn deps) r y)
include hrange hsolved

omit hrange in
/-- One dependency of an index. -/
theorem absent_or_solved_iff {l : Int} (hl : l < deps.length) :
    (l ≤ -1 ∨ l ∈ solved) ↔ ∀ y : Nat, l = y → ChainsBelow (DependsOn deps) r y := by
  constructor
  · rintro (hneg | hmem) y rfl
    · omega
    · exact ((hsolved y).mp hmem).2
  · intro h
    by_cases hneg : l ≤ -1
    · exact .inl hneg
    · obtain ⟨y, rfl⟩ := Int.eq_ofNat_of_zero_le (show 0 ≤ l by omega)
      exact .inr ((hsolved y).mpr ⟨by omega, h y rfl⟩)

/-- **A ROUND** takes the indices whose chains are at most as long as the round. -/
theorem isSolvable_iff {x : Nat} (hx : x < deps.length) :
    isSolvable deps solved x = true ↔ ChainsBelow (DependsOn deps) (r + 1) x := by
  have hget := getElem?_eq_getElem hx
  obtain ⟨hl, hr⟩ := hrange _ (getElem_mem hx)
  have hstep : ChainsBelow (DependsOn deps) (r + 1) x ↔
      ∀ y : Nat, (deps[x].1 = y ∨ deps[x].2 = y) → ChainsBelow (DependsOn deps) r y := by
    rw [chainsBelow_succ]
    simp [DependsOn, hget]
  rw [hstep]
  simp only [or_imp, forall_and, ← absent_or_solved_iff hsolved hl,
    ← absent_or_solved_iff hsolved hr]
  simp [isSolvable, hget]

end

theorem DependsOn.lt {x y : Nat} (h : DependsOn deps x y) (hrange : InRange deps) :
    y < deps.length := by
  obtain ⟨d, hd, hy⟩ := h
  obtain ⟨hl, hr⟩ := hrange d (mem_of_getElem? hd)
  omega

/-- What the levels are from round `r` on. -/
def Layered (deps : List (Int × Int)) (r : Nat) (remaining : List Nat) (levels : List (List Nat)) :
    Prop :=
  levels.flatten.Perm remaining ∧ ∀ k level, levels[k]? = some level → level ≠ [] ∧
    ∀ x ∈ level, ChainFrom (DependsOn deps) x (r + k) ∧ ChainsBelow (DependsOn deps) (r + k + 1) x

/-- **THE LOOP** ends with the levels, or with a cycle. -/
theorem levelLoop_ends (hrange : InRange deps) (fuel : Nat) (r : Nat) (solved : List Int)
    (remaining : List Nat)
    (hsolved : ∀ y : Nat, (y : Int) ∈ solved ↔ y < deps.length ∧ ChainsBelow (DependsOn deps) r y)
    (hremaining : ∀ x, x ∈ remaining ↔ x < deps.length ∧ ¬ ChainsBelow (DependsOn deps) r x)
    (hlen : remaining.length ≤ fuel) :
    Ends (Layered deps r remaining) (fun _ => ∃ x, Relation.TransGen (DependsOn deps) x x)
      (levelLoop deps fuel solved remaining) := by
  induction fuel generalizing r solved remaining with
  | zero =>
    obtain rfl := length_eq_zero_iff.mp (Nat.le_zero.mp hlen)
    exact ⟨.refl _, by simp⟩
  | succ fuel ih =>
    have htakes : ∀ x ∈ remaining,
        (isSolvable deps solved x = true ↔ ChainsBelow (DependsOn deps) (r + 1) x) :=
      fun x hx => isSolvable_iff hrange hsolved ((hremaining x).mp hx).1
    unfold levelLoop
    split
    next hnil =>
      obtain rfl := isEmpty_iff.mp hnil
      exact ⟨.refl _, by simp⟩
    next hsome =>
      dsimp only
      split
      next hnone =>
        -- nothing was taken: every index left has a dependency that is left
        refine exists_transGen_self (fun hnil => hsome (isEmpty_iff.mpr hnil)) ?_
        intro x hx
        have hnot : ¬ ChainsBelow (DependsOn deps) (r + 1) x := fun hbelow =>
          filter_eq_nil_iff.mp (isEmpty_iff.mp hnone) x hx ((htakes x hx).mpr hbelow)
        rw [chainsBelow_succ, not_forall] at hnot
        obtain ⟨y, hnot⟩ := hnot
        obtain ⟨hdep, hlong⟩ := Classical.not_imp.mp hnot
        exact ⟨y, (hremaining y).mpr ⟨hdep.lt hrange, hlong⟩, hdep⟩
      next hlevel =>
        have hsolved' : ∀ y : Nat, (y : Int) ∈ solved ++
            (remaining.filter (isSolvable deps solved)).map Int.ofNat ↔
            y < deps.length ∧ ChainsBelow (DependsOn deps) (r + 1) y := by
          have hmono := fun y (h : ChainsBelow (DependsOn deps) r y) => h.succ
          intro y
          simp only [mem_append, hsolved, mem_map, mem_filter, Int.ofNat_eq_natCast,
            Nat.cast_inj, exists_eq_right]
          grind
        have hremaining' : ∀ x, x ∈ (remaining.filter fun x => !isSolvable deps solved x) ↔
            x < deps.length ∧ ¬ ChainsBelow (DependsOn deps) (r + 1) x := by
          have hmono := fun x (h : ChainsBelow (DependsOn deps) r x) => h.succ
          intro x
          rw [mem_filter]
          grind
        have hperm := filter_append_perm (isSolvable deps solved) remaining
        have hshort := hperm.length_eq
        rw [length_append] at hshort
        have hpos : 0 < (remaining.filter (isSolvable deps solved)).length :=
          length_pos_iff.mpr fun hnil => hlevel (isEmpty_iff.mpr hnil)
        refine (ih (r + 1) _ _ hsolved' hremaining' (by omega)).bind fun levels hlevels => ?_
        refine ⟨?_, ?_⟩
        · rw [flatten_cons]
          exact (hlevels.1.append_left _).trans hperm
        · intro k level hk
          cases k with
          | zero =>
            cases hk
            refine ⟨length_pos_iff.mp hpos, fun x hx => ?_⟩
            obtain ⟨hx, htaken⟩ := mem_filter.mp hx
            have hbelow := (htakes x hx).mp htaken
            exact ⟨chainFrom_of_chainsBelow hbelow ((hremaining x).mp hx).2, hbelow⟩
          | succ k =>
            rw [show r + (k + 1) = r + 1 + k by omega]
            exact hlevels.2 k level hk

/-! ## §3. The result. -/

theorem getIndexLevels_eq_ok {levels : List (List Nat)} : self.getIndexLevels = .ok levels ↔
    self.dependencies.length = self.ncaProofs.length ∧ InRange self.dependencies ∧
      levelLoop self.dependencies self.dependencies.length []
        (range self.dependencies.length) = .ok levels := by
  unfold UpdateNCAProofsWithDependencies.getIndexLevels
  rw [ite_error_eq_ok, not_not]
  refine and_congr_right fun hlen => ?_
  rw [← hlen]
  have hrange : (self.dependencies.flatMap fun d => [d.1, d.2]).find?
      (fun d => ((self.dependencies.length : Nat) : Int) ≤ d) = none ↔
    InRange self.dependencies := by
    simp [InRange, or_imp, forall_and]
  cases hfind : (self.dependencies.flatMap fun d => [d.1, d.2]).find?
      (fun d => ((self.dependencies.length : Nat) : Int) ≤ d) with
  | none => simp [hrange.mp hfind]
  | some d =>
    have hnot : ¬ InRange self.dependencies := fun h => absurd (hrange.mpr h) (by simp [hfind])
    simp [hnot]

/-- **`get_index_levels`** returns the levels of the longest chains exactly when the table has a
pair for each proof, no dependency is out of range and there is no cycle. -/
theorem get_index_levels_layers :
    ((∃ levels, self.getIndexLevels = .ok levels) ↔
      self.dependencies.length = self.ncaProofs.length ∧ InRange self.dependencies ∧
      ∀ x, ¬ Relation.TransGen (DependsOn self.dependencies) x x) ∧
    ∀ levels, self.getIndexLevels = .ok levels →
      levels.flatten.Perm (List.range self.ncaProofs.length) ∧
      ∀ k level, levels[k]? = some level → level ≠ [] ∧
        ∀ x ∈ level, ChainFrom (DependsOn self.dependencies) x k ∧
          ∀ n, ChainFrom (DependsOn self.dependencies) x n → n ≤ k := by
  have hends := fun hrange : InRange self.dependencies => levelLoop_ends hrange
    self.dependencies.length 0 [] (range self.dependencies.length)
    (by simp [not_chainsBelow_zero]) (by simp [not_chainsBelow_zero]) (by simp)
  simp only [getIndexLevels_eq_ok, exists_and_left]
  refine ⟨and_congr_right fun hlen => and_congr_right fun hrange => ?_, ?_⟩
  · constructor
    · rintro ⟨levels, hok⟩ x hcycle
      obtain ⟨hperm, hlevels⟩ := (hends hrange).of_ok hok
      -- the index of a cycle is in some level, where the chains are bounded
      obtain ⟨y, ⟨d, hd, _⟩, _⟩ := Relation.TransGen.head'_iff.mp hcycle
      have hx := (List.getElem?_eq_some_iff.mp hd).1
      obtain ⟨level, hlevel, hx⟩ := mem_flatten.mp
        (hperm.mem_iff.mpr (mem_range.mpr hx))
      obtain ⟨k, hk⟩ := mem_iff_getElem?.mp hlevel
      exact ((hlevels k level hk).2 x hx).2.not_transGen hcycle
    · intro hacyclic
      cases hres : levelLoop self.dependencies self.dependencies.length []
          (range self.dependencies.length) with
      | ok levels => exact ⟨levels, rfl⟩
      | error e =>
        obtain ⟨x, hx⟩ := (hends hrange).of_error hres
        exact absurd hx (hacyclic x)
  · rintro levels ⟨hlen, hrange, hok⟩
    obtain ⟨hperm, hlevels⟩ := (hends hrange).of_ok hok
    refine ⟨hlen ▸ hperm, fun k level hk => ⟨(hlevels k level hk).1, fun x hx => ?_⟩⟩
    obtain ⟨hchain, hbelow⟩ := (hlevels k level hk).2 x hx
    rw [Nat.zero_add] at hchain hbelow
    exact ⟨hchain, fun n hn => Nat.lt_succ_iff.mp (hbelow n hn)⟩

/-- A table that has a pair too many is refused, although its one pair names no dependency. -/
theorem get_index_levels_count_mismatch :
    (⟨[], [(-1, -1)]⟩ : UpdateNCAProofsWithDependencies Unit).getIndexLevels =
      .error "NCA dependency count must match proof count" ∧
    InRange [(-1, -1)] ∧ ∀ x, ¬ Relation.TransGen (DependsOn [(-1, -1)]) x x := by
  have hnone : ∀ x y, ¬ DependsOn [(-1, -1)] x y := by
    rintro x y ⟨d, hd, hy⟩
    obtain rfl := mem_singleton.mp (mem_of_getElem? hd)
    omega
  refine ⟨rfl, by simp [InRange], fun x hcycle => ?_⟩
  obtain ⟨y, hxy, _⟩ := Relation.TransGen.head'_iff.mp hcycle
  exact hnone x y hxy

end PsyNode.Nca
