/-
PsyNode.Edge.InFlight
**SUBMISSIONS DO NOT COLLIDE.**  Whatever the interleaving of calls and commits:

  * two updates of a realm from one old root, with no swap for another old root
    between theirs, were accepted at checkpoints three or more apart;
  * no two updates of a realm are published under one `unique_pending_id`.

The first needs no lock: the swap compares the bytes it read, so when it succeeds
the record in the store is the one that the window was checked against, however
old the other values of the call are.
-/
import PsyNode.Edge.SubmitGuta

namespace PsyNode.Edge

open Merkle Guta Lib.ByteCodec Lib.Interleave Lib P2p List Function GutaInFlightRecord Phase
open List.Subset

/-! ## §1. Keys and records. -/

/-- Keys of different tables differ. -/
theorem tableKey_append_ne {rid rid' : QRealmIdentifier} {table table' rest rest' : Bytes}
    (hlength : table.length = table'.length) (hne : table ≠ table') :
    tableKey rid table ++ rest ≠ tableKey rid' table' ++ rest' := by
  intro h
  have hkey := (append_inj h (by simp [tableKey, writeU32, writeU16, hlength])).1
  have htail := (append_inj hkey (by simp [writeU32])).2
  exact hne (append_inj htail (by simp [writeU16])).2

theorem ttGetGutaInFlightKey_injective {rid : QRealmIdentifier} {r r' : UInt64}
    (h : ttGetGutaInFlightKey rid r = ttGetGutaInFlightKey rid r') : r = r' := by
  have hbytes := congrArg ofLeBytes (append_cancel_left h)
  rw [writeU64, writeU64, ofLeBytes_leBytes (UInt64.toNat_lt r),
    ofLeBytes_leBytes (UInt64.toNat_lt r')] at hbytes
  exact UInt64.toNat_inj.mp hbytes

theorem ttGetGutaInFlightKey_ne_status (rid : QRealmIdentifier) (r u r' : UInt64) :
    ttGetGutaInFlightKey rid r ≠ ttGetSubmitStatusKey rid u r' :=
  tableKey_append_ne rfl (by decide)

theorem GutaInFlightRecord.fromBytes_toBytes (record : GutaInFlightRecord) :
    fromBytes record.toBytes = .ok record := by
  have hold := record.oldRealmRoot.length_toList
  have hnew := record.newRealmRoot.length_toList
  have hlength : record.toBytes.length = 72 := by
    simp [toBytes, hold, hnew, writeU64]
  have hdrop : record.toBytes.drop 32 =
      record.newRealmRoot.toList ++ writeU64 record.acceptedAtCheckpointId :=
    drop_left' hold
  have hdrop' : record.toBytes.drop 64 = writeU64 record.acceptedAtCheckpointId := by
    rw [show 64 = 32 + 32 from rfl, ← drop_drop, hdrop]
    exact drop_left' hnew
  unfold fromBytes
  rw [dif_pos hlength, Except.ok.injEq]
  obtain ⟨old, new, accepted⟩ := record
  rw [mk.injEq]
  refine ⟨FixedBytes.ext (take_left' hold), FixedBytes.ext ?_, ?_⟩
  · show (toBytes _ |>.drop 32).take 32 = _
    rw [hdrop]
    exact take_left' hnew
  · rw [hdrop']
    show UInt64.ofNat (ofLeBytes (leBytes 8 accepted.toNat)) = accepted
    rw [ofLeBytes_leBytes (UInt64.toNat_lt accepted), UInt64.ofNat_toNat]

theorem GutaInFlightRecord.toBytes_ne_nil (record : GutaInFlightRecord) :
    record.toBytes.isEmpty = false := by
  rw [isEmpty_eq_false_iff]
  refine ne_nil_of_length_pos ?_
  simp [toBytes, record.oldRealmRoot.length_toList]

/-! ## §2. What a step does. -/

section
variable {F Hash : Type} [QFelt64 F] [DecidableEq Hash] [ToString Hash]
  {toBytes : Hash → FixedBytes 32} {config : EdgeConfig} (p : Publication F Hash)

def Publication.realmId : UInt64 :=
  UInt64.ofNat (toU64Value p.item.header.header.stateTransition.nodeIndex)

def Publication.uniquePendingId : Nat := p.item.jobId.goalId

def Publication.oldRealmRoot : Hash :=
  p.item.header.header.stateTransition.oldNodeValue

variable (toBytes) in
/-- A record with the observed bytes is not one that keeps the call out. -/
def WindowOpen (call : Submission F Hash) (committed : Fin (2 ^ CHECKPOINT_TREE_HEIGHT))
    (observed : Option Bytes) : Prop :=
  ∀ record : GutaInFlightRecord, observed = some record.toBytes →
    call.isInFlight toBytes committed record = false

variable (toBytes config) in
/-- **THE STEPS OF A CALL**, with what each has checked. -/
inductive Transition (i : Nat) (call : Submission F Hash) (s : Shared F Hash) :
    Phase → Phase → Shared F Hash → Prop
  | stop {phase : Phase} (e : SubmitError) : Transition i call s phase (.failed e) s
  | stay : Transition i call s .done .done s
  | generation (g : GatheringGeneration) : Transition i call s .start (.generation g) s
  | latest {g : GatheringGeneration} :
      Transition i call s (.generation g) (.latest g s.latestCheckpointId) s
  | matched {g : GatheringGeneration} {c : Fin (2 ^ CHECKPOINT_TREE_HEIGHT)} :
      Transition i call s (.latest g c) (.matched g c) s
  | cleared {g : GatheringGeneration} {c : Fin (2 ^ CHECKPOINT_TREE_HEIGHT)}
      {observed : Option Bytes} (h : WindowOpen toBytes call c observed) :
      Transition i call s (.matched g c) (.cleared g c observed) s
  | verified {g : GatheringGeneration} {c : Fin (2 ^ CHECKPOINT_TREE_HEIGHT)}
      {observed : Option Bytes} {jobId : QProvingJobDataID}
      (h : jobId.goalId = g.uniquePendingId.toNat) :
      Transition i call s (.cleared g c observed) (.verified g c observed jobId) s
  | put {g : GatheringGeneration} {c : Fin (2 ^ CHECKPOINT_TREE_HEIGHT)}
      {observed : Option Bytes} {jobId : QProvingJobDataID} (value : Bytes)
      (h : s.tempDb (ttGetSubmitStatusKey config.realmIdentifier g.uniquePendingId
        call.realmIdU64) = none) :
      Transition i call s (.verified g c observed jobId) (.submitted g c observed jobId)
        { s with
          tempDb := update s.tempDb (ttGetSubmitStatusKey config.realmIdentifier
            g.uniquePendingId call.realmIdU64) (some value)
          holders := s.holders ++ [⟨i, g.uniquePendingId, call.realmIdU64⟩] }
  | swap {g : GatheringGeneration} {c : Fin (2 ^ CHECKPOINT_TREE_HEIGHT)}
      {observed : Option Bytes} {jobId : QProvingJobDataID}
      (h : (s.tempDb (ttGetGutaInFlightKey config.realmIdentifier call.realmIdU64)).filter
        (fun value => !value.isEmpty) = observed) :
      Transition i call s (.submitted g c observed jobId) (.claimed g jobId)
        { s with
          tempDb := update s.tempDb (ttGetGutaInFlightKey config.realmIdentifier
            call.realmIdU64) (some (call.acceptedRecord toBytes c).toBytes)
          claims := s.claims ++ [⟨i, call.realmIdU64, call.acceptedRecord toBytes c⟩] }
  | store {g : GatheringGeneration} {jobId : QProvingJobDataID}
      (proofs : List ((QProvingJobDataID × UInt64) × Bytes)) :
      Transition i call s (.claimed g jobId) (.stored g jobId) { s with proofStore := proofs }
  | publish {g : GatheringGeneration} {jobId : QProvingJobDataID} :
      Transition i call s (.stored g jobId) .done
        { s with
          queue := s.queue ++ [⟨i, g.procCheckpointUniqueId, call.input.header, jobId⟩] }

variable {call : Submission F Hash}

omit [DecidableEq Hash] [ToString Hash] in
theorem goalId_of_realmSubmitJobId {u : UInt64} {jobId : QProvingJobDataID}
    (h : realmSubmitJobId config call u = .ok jobId) : jobId.goalId = u.toNat := by
  unfold realmSubmitJobId at h
  split at h
  next => cases h
  next => rw [← Except.ok.inj h]

variable {s s' : Shared F Hash} {i : Nat} {phase phase' : Phase} {choice : Choice}

/-- **A STEP IS ONE OF THE TRANSITIONS.** -/
theorem transition_of_submitStep
    (h : (phase', s') = submitStep toBytes config i call choice s phase) :
    Transition toBytes config i call s phase phase' s' := by
  cases phase with
  | start =>
    rw [submitStep] at h
    split at h
    next => cases h; exact .stop _
    next =>
      split at h
      next => cases h; exact .stop _
      next => cases h; exact .generation _
  | generation g => cases h; exact .latest
  | latest g c =>
    rw [submitStep] at h
    dsimp only at h
    split at h
    next => cases h; exact .stop _
    next => cases h; exact .matched
  | matched g c =>
    rw [submitStep] at h
    split at h
    next => cases h; exact .stop _
    next => cases h; exact .cleared (fun record hrecord => absurd hrecord (by simp))
    next record raw hread =>
      split at h
      next => cases h; exact .stop _
      next hopen =>
        cases h
        refine .cleared ?_
        intro record' hraw
        -- the bytes that were read are those of one record
        cases hraw
        unfold getGutaInFlight at hread
        split at hread
        next => cases hread
        next stored hstored =>
          cases hparse : fromBytes stored with
          | error e =>
            rw [hparse] at hread
            exact absurd hread (by simp [Except.map])
          | ok parsed =>
            rw [hparse] at hread
            have hpair := Prod.mk.inj (Option.some.inj (Except.ok.inj hread))
            rw [hpair.2, fromBytes_toBytes] at hparse
            rw [Except.ok.inj hparse, hpair.1]
            exact Bool.not_eq_true _ ▸ hopen
  | cleared g c observed =>
    rw [submitStep] at h
    split at h
    next => cases h; exact .stop _
    next => cases h; exact .stop _
    next hjob _ => cases h; exact .verified (goalId_of_realmSubmitJobId hjob)
  | verified g c observed jobId =>
    rw [submitStep] at h
    unfold putValueIfAbsent at h
    cases hkey : s.tempDb (ttGetSubmitStatusKey config.realmIdentifier g.uniquePendingId
      call.realmIdU64) with
    | some value =>
      rw [hkey] at h
      cases h
      exact .stop _
    | none =>
      rw [hkey] at h
      cases h
      exact .put _ hkey
  | submitted g c observed jobId =>
    rw [submitStep] at h
    unfold compareAndSet at h
    split_ifs at h with hcas
    · cases h
      exact .swap hcas
    · cases h
      exact .stop _
  | claimed g jobId => cases h; exact .store _
  | stored g jobId => cases h; exact .publish
  | done => cases h; exact .stay
  | failed e => cases h; exact .stop _

/-! ## §3. The invariant. -/

/-- Successive swaps for one realm. -/
def Apart (a b : Claim) : Prop :=
  a.record.oldRealmRoot = b.record.oldRealmRoot →
    a.record.acceptedAtCheckpointId.toNat + GUTA_IN_FLIGHT_WINDOW_CHECKPOINTS ≤
      b.record.acceptedAtCheckpointId.toNat

/-- The swaps for a realm, oldest first. -/
def claimsOf (claims : List Claim) (realmId : UInt64) : List Claim :=
  claims.filter (fun claim => claim.realmId = realmId)

variable (toBytes config) in
/-- **WHAT ALL CALLS KEEP.** -/
structure SharedOk (s : Shared F Hash) : Prop where
  status : ∀ holder ∈ s.holders, (s.tempDb (ttGetSubmitStatusKey config.realmIdentifier
    holder.uniquePendingId holder.realmId)).isSome
  holders : s.holders.Pairwise (fun a b => ¬ (a.realmId = b.realmId ∧
    a.uniquePendingId = b.uniquePendingId))
  holderCalls : (s.holders.map Holder.call).Nodup
  record : ∀ realmId claim, (claimsOf s.claims realmId).getLast? = some claim →
    s.tempDb (ttGetGutaInFlightKey config.realmIdentifier realmId) = some claim.record.toBytes
  accepted : ∀ claim ∈ s.claims, claim.record.acceptedAtCheckpointId.toNat < 2 ^ 32
  apart : ∀ realmId, (claimsOf s.claims realmId).IsChain Apart
  claimCalls : (s.claims.map Claim.call).Nodup
  queueCalls : (s.queue.map Publication.call).Nodup
  published : ∀ p ∈ s.queue,
    (∃ holder ∈ s.holders, holder.call = p.call ∧ holder.realmId = p.realmId ∧
      holder.uniquePendingId.toNat = p.uniquePendingId) ∧
    ∃ claim ∈ s.claims, claim.call = p.call ∧ claim.realmId = p.realmId ∧
      claim.record.oldRealmRoot = toBytes p.oldRealmRoot

/-- How far a call has come. -/
def Phase.rank : Phase → Nat
  | .start | .generation _ | .latest _ _ | .matched _ _ | .cleared _ _ _ | .verified _ _ _ _ => 0
  | .submitted _ _ _ _ => 1
  | .claimed _ _ | .stored _ _ => 2
  | .done | .failed _ => 3

/-- What a call knows, from what it has read and done. -/
def PhaseOk (toBytes : Hash → FixedBytes 32) (i : Nat) (call : Submission F Hash)
    (s : Shared F Hash) : Phase → Prop
  | .cleared _ c observed => WindowOpen toBytes call c observed
  | .verified g c observed jobId =>
    WindowOpen toBytes call c observed ∧ jobId.goalId = g.uniquePendingId.toNat
  | .submitted g c observed jobId =>
    WindowOpen toBytes call c observed ∧ jobId.goalId = g.uniquePendingId.toNat ∧
      ⟨i, g.uniquePendingId, call.realmIdU64⟩ ∈ s.holders
  | .claimed g jobId | .stored g jobId =>
    jobId.goalId = g.uniquePendingId.toNat ∧
      ⟨i, g.uniquePendingId, call.realmIdU64⟩ ∈ s.holders ∧
      ∃ c, ⟨i, call.realmIdU64, call.acceptedRecord toBytes c⟩ ∈ s.claims
  | _ => True

variable (toBytes) in
/-- **WHAT ONE CALL KEEPS.** -/
structure CallOk (calls : Nat → Submission F Hash) (i : Nat) (phase : Phase) (s : Shared F Hash) :
    Prop where
  holder : i ∈ s.holders.map Holder.call → 1 ≤ phase.rank
  claim : i ∈ s.claims.map Claim.call → 2 ≤ phase.rank
  queue : i ∈ s.queue.map Publication.call → 3 ≤ phase.rank
  phase : PhaseOk toBytes i (calls i) s phase

omit [DecidableEq Hash] [ToString Hash] in
/-- What a call knows stays true when more is done. -/
theorem PhaseOk.mono (h : PhaseOk toBytes i call s phase) (hholders : s.holders ⊆ s'.holders)
    (hclaims : s.claims ⊆ s'.claims) : PhaseOk toBytes i call s' phase := by
  cases phase with
  | submitted g c observed jobId => exact ⟨h.1, h.2.1, hholders h.2.2⟩
  | claimed g jobId | stored g jobId =>
    obtain ⟨hjob, hholder, c, hclaim⟩ := h
    exact ⟨hjob, hholders hholder, c, hclaims hclaim⟩
  | _ => exact h

variable {calls : Nat → Submission F Hash}
  (htransition : Transition toBytes config i (calls i) s phase phase' s')

section
omit [DecidableEq Hash] [ToString Hash]

include htransition in
theorem CallOk.other {j : Nat} {k : Phase} (hj : j ≠ i)
    (h : CallOk toBytes calls j k s) : CallOk toBytes calls j k s' := by
  obtain ⟨hholder, hclaim, hqueue, hphase⟩ := h
  cases htransition with
  | put =>
    refine ⟨?_, hclaim, hqueue, hphase.mono (subset_append_left _ _) (refl _)⟩
    simpa [hj] using hholder
  | swap =>
    refine ⟨hholder, ?_, hqueue, hphase.mono (refl _) (subset_append_left _ _)⟩
    simpa [hj] using hclaim
  | publish =>
    refine ⟨hholder, hclaim, ?_, hphase.mono (refl _) (refl _)⟩
    simpa [hj] using hqueue
  | store => exact ⟨hholder, hclaim, hqueue, hphase.mono (refl _) (refl _)⟩
  | _ => exact ⟨hholder, hclaim, hqueue, hphase⟩

include htransition in
theorem CallOk.own (h : CallOk toBytes calls i phase s) : CallOk toBytes calls i phase' s' := by
  obtain ⟨hholder, hclaim, hqueue, hphase⟩ := h
  cases htransition with
  | stop e => exact ⟨fun _ => by simp [rank], fun _ => by simp [rank],
      fun _ => by simp [rank], trivial⟩
  | stay | store => exact ⟨hholder, hclaim, hqueue, hphase⟩
  | generation | latest | matched => exact ⟨hholder, hclaim, hqueue, trivial⟩
  | cleared hopen => exact ⟨hholder, hclaim, hqueue, hopen⟩
  | verified hjob => exact ⟨hholder, hclaim, hqueue, hphase, hjob⟩
  | put value =>
    refine ⟨fun _ => le_rfl, ?_, ?_, hphase.1, hphase.2, by simp⟩
    · intro hmem
      exact absurd (hclaim hmem) (by simp [rank])
    · intro hmem
      exact absurd (hqueue hmem) (by simp [rank])
  | swap =>
    refine ⟨fun _ => by simp [rank], fun _ => le_rfl, ?_, hphase.2.1, hphase.2.2, _,
      mem_append_right _ (mem_singleton.mpr rfl)⟩
    intro hmem
    exact absurd (hqueue hmem) (by simp [rank])
  | publish => exact ⟨fun _ => by simp [rank], fun _ => by simp [rank], fun _ => le_rfl, trivial⟩

end

theorem nodup_map_concat {α β : Type} {f : α → β} {l : List α} {a : α} (h : (l.map f).Nodup)
    (hfresh : f a ∉ l.map f) : ((l ++ [a]).map f).Nodup := by
  rw [map_append, map_singleton]
  exact h.append (nodup_singleton _) (disjoint_singleton.mpr hfresh)

theorem claimsOf_append (claims : List Claim) (claim : Claim) (realmId : UInt64) :
    claimsOf (claims ++ [claim]) realmId =
      if claim.realmId = realmId then claimsOf claims realmId ++ [claim]
      else claimsOf claims realmId := by
  unfold claimsOf
  by_cases h : claim.realmId = realmId
  · simp [h]
  · simp [h]

variable {c : Fin (2 ^ CHECKPOINT_TREE_HEIGHT)} {observed : Option Bytes}

section
omit [DecidableEq Hash] [ToString Hash]

theorem SharedOk.put (h : SharedOk toBytes config s) {u realmId : UInt64} {value : Bytes}
    (habsent : s.tempDb (ttGetSubmitStatusKey config.realmIdentifier u realmId) = none)
    (hfresh : i ∉ s.holders.map Holder.call) : SharedOk toBytes config { s with
      tempDb := update s.tempDb (ttGetSubmitStatusKey config.realmIdentifier u realmId)
        (some value)
      holders := s.holders ++ [⟨i, u, realmId⟩] } where
  status := by
    intro holder hmem
    dsimp only
    by_cases hkey : ttGetSubmitStatusKey config.realmIdentifier holder.uniquePendingId
        holder.realmId = ttGetSubmitStatusKey config.realmIdentifier u realmId
    · rw [hkey, update_self]
      rfl
    · rw [update_of_ne hkey]
      rcases mem_append.mp hmem with hold | hnew
      · exact h.status holder hold
      · rw [mem_singleton.mp hnew] at hkey
        exact absurd rfl hkey
  holders := by
    refine pairwise_append.mpr ⟨h.holders, pairwise_singleton _ _, ?_⟩
    rintro a ha b hb ⟨hrealm, hpending⟩
    obtain rfl := mem_singleton.mp hb
    -- the status of the earlier holder would be present
    have hsome := h.status a ha
    rw [hrealm, hpending, habsent] at hsome
    cases hsome
  holderCalls := nodup_map_concat h.holderCalls hfresh
  record := by
    intro r claim hlast
    dsimp only
    rw [update_of_ne (ttGetGutaInFlightKey_ne_status _ _ _ _)]
    exact h.record r claim hlast
  accepted := h.accepted
  apart := h.apart
  claimCalls := h.claimCalls
  queueCalls := h.queueCalls
  published := by
    intro p hp
    obtain ⟨⟨holder, hholder, hids⟩, hclaim⟩ := h.published p hp
    exact ⟨⟨holder, mem_append_left _ hholder, hids⟩, hclaim⟩

section
variable (h : SharedOk toBytes config s) (hopen : WindowOpen toBytes call c observed)
  (hcas : (s.tempDb (ttGetGutaInFlightKey config.realmIdentifier call.realmIdU64)).filter
    (fun value => !value.isEmpty) = observed)
include h hopen hcas

/-- **THE SWAP**: the record it replaces is the one its window was checked against. -/
theorem SharedOk.apart_last {claim : Claim}
    (hlast : (claimsOf s.claims call.realmIdU64).getLast? = some claim) :
    Apart claim ⟨i, call.realmIdU64, call.acceptedRecord toBytes c⟩ := by
  intro hroot
  have hstored := h.record _ _ hlast
  have hobserved : observed = some claim.record.toBytes := by
    rw [← hcas, hstored, Option.filter_some, claim.record.toBytes_ne_nil]
    rfl
  have hclear := hopen claim.record hobserved
  have haccepted := h.accepted claim
    (mem_of_mem_filter (mem_of_getLast? hlast))
  have hlate : ¬ c.val < inFlightUntil claim.record := by
    intro hlt
    unfold Submission.isInFlight at hclear
    rw [decide_eq_false_iff_not] at hclear
    exact hclear ⟨hroot, hlt⟩
  have hc : (UInt64.ofNat c.val).toNat = c.val :=
    UInt64.toNat_ofNat_of_lt' (lt_trans c.isLt (by decide))
  show _ ≤ (UInt64.ofNat c.val).toNat
  unfold inFlightUntil GUTA_IN_FLIGHT_WINDOW_CHECKPOINTS at hlate
  unfold GUTA_IN_FLIGHT_WINDOW_CHECKPOINTS
  omega

theorem SharedOk.swap (hfresh : i ∉ s.claims.map Claim.call) : SharedOk toBytes config { s with
      tempDb := update s.tempDb (ttGetGutaInFlightKey config.realmIdentifier
        call.realmIdU64) (some (call.acceptedRecord toBytes c).toBytes)
      claims := s.claims ++ [⟨i, call.realmIdU64, call.acceptedRecord toBytes c⟩] } where
  status := by
    intro holder hmem
    dsimp only
    rw [update_of_ne (ttGetGutaInFlightKey_ne_status _ _ _ _).symm]
    exact h.status holder hmem
  holders := h.holders
  holderCalls := h.holderCalls
  record := by
    intro r claim hlast
    dsimp only at hlast ⊢
    rw [claimsOf_append] at hlast
    by_cases hr : call.realmIdU64 = r
    · rw [if_pos hr, getLast?_concat] at hlast
      rw [← Option.some.inj hlast, ← hr, update_self]
    · rw [if_neg hr] at hlast
      rw [update_of_ne (fun hkey => hr (ttGetGutaInFlightKey_injective hkey).symm)]
      exact h.record r claim hlast
  accepted := by
    refine forall_mem_append.mpr ⟨h.accepted, forall_mem_singleton.mpr ?_⟩
    show (UInt64.ofNat c.val).toNat < 2 ^ 32
    rw [UInt64.toNat_ofNat_of_lt' (lt_trans c.isLt (by decide))]
    exact c.isLt
  apart := by
    intro r
    rw [claimsOf_append]
    split
    next hr =>
      refine isChain_append.mpr ⟨h.apart r, isChain_singleton _, ?_⟩
      intro a ha b hb
      cases hb
      rw [← hr] at ha
      exact h.apart_last hopen hcas ha
    next => exact h.apart r
  claimCalls := nodup_map_concat h.claimCalls hfresh
  queueCalls := h.queueCalls
  published := by
    intro p hp
    obtain ⟨hholder, claim, hclaim, hids⟩ := h.published p hp
    exact ⟨hholder, claim, mem_append_left _ hclaim, hids⟩

end

include htransition in
theorem SharedOk.step (h : SharedOk toBytes config s) (hcall : CallOk toBytes calls i phase s) :
    SharedOk toBytes config s' := by
  cases htransition with
  | put value habsent =>
    refine h.put habsent (fun hmem => ?_)
    exact absurd (hcall.holder hmem) (by simp [rank])
  | swap hcas =>
    refine h.swap hcall.phase.1 hcas (fun hmem => ?_)
    exact absurd (hcall.claim hmem) (by simp [rank])
  | publish =>
    obtain ⟨hjob, hholder, c, hclaim⟩ := hcall.phase
    refine ⟨h.status, h.holders, h.holderCalls, h.record, h.accepted, h.apart, h.claimCalls, ?_, ?_⟩
    · refine nodup_map_concat h.queueCalls (fun hmem => ?_)
      exact absurd (hcall.queue hmem) (by simp [rank])
    · refine forall_mem_append.mpr ⟨h.published, forall_mem_singleton.mpr ?_⟩
      exact ⟨⟨_, hholder, rfl, rfl, hjob.symm⟩, _, hclaim, rfl, rfl, rfl⟩
  | store proofs =>
    exact ⟨h.status, h.holders, h.holderCalls, h.record, h.accepted, h.apart, h.claimCalls,
      h.queueCalls, h.published⟩
  | _ => exact h

end

omit [QFelt64 F] [DecidableEq Hash] [ToString Hash] in
/-- Commits and other tables do not touch what the calls keep. -/
theorem EnvStep.frame (h : EnvStep s s') :
    s'.holders = s.holders ∧ s'.claims = s.claims ∧ s'.queue = s.queue ∧
      (∀ rid u r, s'.tempDb (ttGetSubmitStatusKey rid u r) =
        s.tempDb (ttGetSubmitStatusKey rid u r)) ∧
      ∀ rid r, s'.tempDb (ttGetGutaInFlightKey rid r) = s.tempDb (ttGetGutaInFlightKey rid r) := by
  cases h with
  | commit => exact ⟨rfl, rfl, rfl, fun _ _ _ => rfl, fun _ _ => rfl⟩
  | write rid table rest value hlength hstatus hflight =>
    refine ⟨rfl, rfl, rfl, fun rid' u r => ?_, fun rid' r => ?_⟩
    · exact update_of_ne (tableKey_append_ne (by rw [hlength]; rfl) hstatus.symm) _ _
    · exact update_of_ne (tableKey_append_ne (by rw [hlength]; rfl) hflight.symm) _ _

theorem sharedOk_and_callOk {start state : State Nat (Shared F Hash) Phase}
    (hstart : SharedOk toBytes config start.shared)
    (hlocals : ∀ i, CallOk toBytes calls i (start.locals i) start.shared)
    (h : Reachable (edgeSystem toBytes config calls) start state) :
    SharedOk toBytes config state.shared ∧
      ∀ i, CallOk toBytes calls i (state.locals i) state.shared := by
  have htransition : ∀ i phase s phase' s',
      (edgeSystem toBytes config calls).step i phase s phase' s' →
        Transition toBytes config i (calls i) s phase phase' s' := by
    rintro i phase s phase' s' ⟨choice, hstep⟩
    cases hio : choice.io with
    | some e =>
      rw [hio] at hstep
      cases hstep
      exact .stop _
    | none =>
      rw [hio] at hstep
      exact transition_of_submitStep hstep
  refine h.parts ?_ ?_ ?_ ?_ hstart hlocals
  · intro i phase s phase' s' hstep hs hcall
    exact hs.step (htransition _ _ _ _ _ hstep) hcall
  · intro i phase s phase' s' hstep _ hcall
    exact hcall.own (htransition _ _ _ _ _ hstep)
  · intro i phase s phase' s' hstep j k hj hcall
    exact hcall.other (htransition _ _ _ _ _ hstep) hj
  · intro s s' henv hs
    obtain ⟨hholders, hclaims, hqueue, hstatus, hflight⟩ := EnvStep.frame henv
    constructor
    · refine ⟨?_, hholders ▸ hs.holders, hholders ▸ hs.holderCalls, ?_, hclaims ▸ hs.accepted,
        hclaims ▸ hs.apart, hclaims ▸ hs.claimCalls, hqueue ▸ hs.queueCalls, ?_⟩
      · intro holder hmem
        rw [hstatus]
        exact hs.status holder (hholders ▸ hmem)
      · intro r claim hlast
        rw [hflight]
        exact hs.record r claim (hclaims ▸ hlast)
      · rw [hholders, hclaims, hqueue]
        exact hs.published
    · rintro j k ⟨hholder, hclaim, hq, hphase⟩
      exact ⟨hholders ▸ hholder, hclaims ▸ hclaim, hqueue ▸ hq,
        hphase.mono (by rw [hholders]; exact refl _)
          (by rw [hclaims]; exact refl _)⟩

/-! ## §4. The result. -/

/-- Swaps for one old root in a row: the checkpoints go up by the window each time. -/
theorem le_of_isChain_apart {a b : Claim} {mid : List Claim} (h : (a :: (mid ++ [b])).IsChain Apart)
    (hroot : ∀ c ∈ mid ++ [b], c.record.oldRealmRoot = a.record.oldRealmRoot) :
    a.record.acceptedAtCheckpointId.toNat + GUTA_IN_FLIGHT_WINDOW_CHECKPOINTS ≤
      b.record.acceptedAtCheckpointId.toNat := by
  induction mid generalizing a with
  | nil =>
    have hpair : Apart a b := isChain_cons_cons.mp h |>.1
    exact hpair (hroot b (by simp)).symm
  | cons c mid ih =>
    obtain ⟨hpair, hrest⟩ := isChain_cons_cons.mp h
    have hc := hroot c (by simp)
    have hstep := hpair hc.symm
    have hle := ih hrest (fun d hd => (hroot d (by simp at hd ⊢; tauto)).trans hc.symm)
    omega

/-- The swaps of two calls for one realm and old root: if no swap for another old root of the realm
is between them, they are a window apart. -/
def AcceptedApart (claims : List Claim) (i j : Nat) (realmId : UInt64) (root : FixedBytes 32) :
    Prop :=
  ∃ before a mid b after, claims = before ++ a :: (mid ++ b :: after) ∧
    (a.call = i ∧ b.call = j ∨ a.call = j ∧ b.call = i) ∧
    (a.realmId = realmId ∧ a.record.oldRealmRoot = root) ∧
    (b.realmId = realmId ∧ b.record.oldRealmRoot = root) ∧
    ((∀ c ∈ mid, c.realmId = realmId → c.record.oldRealmRoot = root) →
      a.record.acceptedAtCheckpointId.toNat + GUTA_IN_FLIGHT_WINDOW_CHECKPOINTS ≤
        b.record.acceptedAtCheckpointId.toNat)

theorem exists_eq_append_of_mem_of_ne {α : Type} {l : List α} {a b : α} (ha : a ∈ l) (hb : b ∈ l)
    (hne : a ≠ b) : ∃ x y before mid after, l = before ++ x :: (mid ++ y :: after) ∧
      (x = a ∧ y = b ∨ x = b ∧ y = a) := by
  obtain ⟨before, after, rfl⟩ := append_of_mem ha
  rcases mem_append.mp hb with hb | hb
  · obtain ⟨first, mid, rfl⟩ := append_of_mem hb
    exact ⟨b, a, first, mid, after, by simp, Or.inr ⟨rfl, rfl⟩⟩
  · rcases mem_cons.mp hb with rfl | hb
    · exact absurd rfl hne
    · obtain ⟨mid, last, rfl⟩ := append_of_mem hb
      exact ⟨a, b, before, mid, last, rfl, Or.inl ⟨rfl, rfl⟩⟩

theorem acceptedApart_of_isChain {claims : List Claim} {realmId : UInt64} {root : FixedBytes 32}
    (hchain : (claimsOf claims realmId).IsChain Apart) {a b : Claim} (ha : a ∈ claims)
    (hb : b ∈ claims) (hne : a.call ≠ b.call) (haids : a.realmId = realmId ∧
      a.record.oldRealmRoot = root) (hbids : b.realmId = realmId ∧ b.record.oldRealmRoot = root) :
    AcceptedApart claims a.call b.call realmId root := by
  obtain ⟨x, y, before, mid, after, hclaims, hxy⟩ :=
    exists_eq_append_of_mem_of_ne ha hb (fun h => hne (by rw [h]))
  obtain ⟨hx, hy⟩ : (x.realmId = realmId ∧ x.record.oldRealmRoot = root) ∧
      (y.realmId = realmId ∧ y.record.oldRealmRoot = root) := by
    rcases hxy with ⟨rfl, rfl⟩ | ⟨rfl, rfl⟩
    · exact ⟨haids, hbids⟩
    · exact ⟨hbids, haids⟩
  refine ⟨before, x, mid, y, after, hclaims, ?_, hx, hy, ?_⟩
  · rcases hxy with ⟨rfl, rfl⟩ | ⟨rfl, rfl⟩
    · exact Or.inl ⟨rfl, rfl⟩
    · exact Or.inr ⟨rfl, rfl⟩
  · intro hmid
    have hfilter : claimsOf claims realmId = claimsOf before realmId ++
        (x :: (claimsOf mid realmId ++ [y])) ++ claimsOf after realmId := by
      rw [hclaims]
      simp [claimsOf, filter_append, hx.1, hy.1]
    rw [hfilter] at hchain
    have hbetween :=
      List.IsChain.infix hchain ⟨claimsOf before realmId, claimsOf after realmId, rfl⟩
    refine le_of_isChain_apart hbetween ?_
    intro c hc
    rcases mem_append.mp hc with hc | hc
    · obtain ⟨hmem, hrealm⟩ := mem_filter.mp hc
      rw [hmid c hmem (by simpa using hrealm), hx.2]
    · rw [mem_singleton.mp hc, hy.2, hx.2]

/-- **CONCURRENT SUBMISSIONS.**  From a state in which no call has begun, in every state that any
interleaving reaches: the updates of a realm are published under different pending ids, and two of
them from one old root were accepted a window apart. -/
theorem guta_submissions_apart {tempDb : TempDb}
    {latestCheckpointId : Fin (2 ^ CHECKPOINT_TREE_HEIGHT)} {realmNode : Nat → UInt64 → Hash × Nat}
    {proofStore : List ((QProvingJobDataID × UInt64) × Bytes)} {calls : Nat → Submission F Hash}
    {state : State Nat (Shared F Hash) Phase} (h : Reachable (edgeSystem toBytes config calls)
      ⟨⟨tempDb, latestCheckpointId, realmNode, proofStore, [], [], []⟩, fun _ => .start⟩ state) :
    state.shared.queue.Pairwise (fun p q => p.realmId = q.realmId →
      (p.oldRealmRoot = q.oldRealmRoot → AcceptedApart state.shared.claims p.call q.call p.realmId
        (toBytes p.oldRealmRoot)) ∧ p.uniquePendingId ≠ q.uniquePendingId) := by
  obtain ⟨hshared, _⟩ : SharedOk toBytes config state.shared ∧ _ := by
    refine sharedOk_and_callOk ?_ ?_ h
    · exact ⟨by simp, List.Pairwise.nil, nodup_nil, by simp [claimsOf], by simp,
        by simp [claimsOf], nodup_nil, nodup_nil, by simp⟩
    · exact fun i => ⟨by simp, by simp, by simp, trivial⟩
  have hcalls : state.shared.queue.Pairwise (fun p q => p.call ≠ q.call) :=
    pairwise_map.mp hshared.queueCalls
  refine hcalls.imp_of_mem ?_
  intro p q hp hq hne hrealm
  obtain ⟨⟨holder, hholder, hcall, hr, hu⟩, claim, hclaim, hclaimCall, hclaimIds⟩ :=
    hshared.published p hp
  obtain ⟨⟨holder', hholder', hcall', hr', hu'⟩, claim', hclaim', hclaimCall', hclaimIds'⟩ :=
    hshared.published q hq
  constructor
  · intro hroot
    rw [← hclaimCall, ← hclaimCall'] at hne ⊢
    refine acceptedApart_of_isChain (hshared.apart _) hclaim hclaim' hne hclaimIds ?_
    rw [hrealm, hroot]
    exact hclaimIds'
  · -- one status for both would be held by one call
    intro hpending
    have hsame : holder.realmId = holder'.realmId ∧
        holder.uniquePendingId = holder'.uniquePendingId := by
      rw [hr, hr', hrealm]
      exact ⟨rfl, UInt64.toNat_inj.mp (by rw [hu, hu', hpending])⟩
    have heq : holder = holder' := by
      by_contra hdiff
      have hsymm : Std.Symm (fun a b : Holder => ¬ (a.realmId = b.realmId ∧
          a.uniquePendingId = b.uniquePendingId)) :=
        ⟨fun a b hab hba => hab ⟨hba.1.symm, hba.2.symm⟩⟩
      exact hshared.holders.forall hholder hholder' hdiff hsame
    exact hne (by rw [← hcall, ← hcall', heq])

variable (toBytes config) in
/-- Call `i` makes `n` steps. -/
def stepCall (calls : Nat → Submission F Hash) (i : Nat) (choice : Choice) :
    Nat → State Nat (Shared F Hash) Phase → State Nat (Shared F Hash) Phase
  | 0, state => state
  | n + 1, state =>
    let after := submitStep toBytes config i (calls i) choice state.shared (state.locals i)
    stepCall calls i choice n ⟨after.2, update state.locals i after.1⟩

theorem reachable_stepCall (hio : choice.io = none) (n : Nat)
    (state : State Nat (Shared F Hash) Phase) : Reachable (edgeSystem toBytes config calls) state
      (stepCall toBytes config calls i choice n state) := by
  induction n generalizing state with
  | zero => exact Relation.ReflTransGen.refl
  | succ n ih =>
    refine Relation.ReflTransGen.head (.call ⟨choice, ?_⟩) (ih _)
    rw [hio]

end

/-- Realm 0 submits twice from the old root 0: at checkpoint 0, and again after a commit. -/
def resubmission : Nat → Submission Nat Nat := fun _ =>
  ⟨⟨⟨⟨0, 0, ⟨0, 1, 0, 1⟩, ⟨0, 0, 0, 0, 0⟩, 0⟩, 0⟩, 63⟩, []⟩

def resubmissionConfig : EdgeConfig := ⟨⟨1, 2⟩, 1, by decide⟩

def resubmissionBytes (n : Nat) : FixedBytes 32 := ⟨leBytes 32 n, length_leBytes _ _⟩

/-- The first gathering generation. -/
def firstGeneration : TempDb := fun key =>
  if key = ttGetGatheringUniquePendingIdKey ⟨1, 2⟩ then some (leBytes 32 1) else none

def firstPublished : State Nat (Shared Nat Nat) Phase :=
  stepCall resubmissionBytes resubmissionConfig resubmission 0 ⟨none, .ok (), 5⟩ 9
    ⟨⟨firstGeneration, 0, fun _ _ => (0, 0), [], [], [], []⟩, fun _ => .start⟩

def bothPublished : State Nat (Shared Nat Nat) Phase :=
  stepCall resubmissionBytes resubmissionConfig resubmission 1 ⟨none, .ok (), 6⟩ 9
    ⟨{ firstPublished.shared with
        latestCheckpointId := 3
        tempDb := update firstPublished.shared.tempDb
          (ttGetGatheringUniquePendingIdKey ⟨1, 2⟩ ++ []) (some (leBytes 32 2)) },
      firstPublished.locals⟩

theorem reachable_bothPublished :
    Reachable (edgeSystem resubmissionBytes resubmissionConfig resubmission)
      ⟨⟨firstGeneration, 0, fun _ _ => (0, 0), [], [], [], []⟩, fun _ => .start⟩ bothPublished := by
  have hcommit : Reachable (edgeSystem resubmissionBytes resubmissionConfig resubmission)
      firstPublished ⟨{ firstPublished.shared with latestCheckpointId := 3 },
        firstPublished.locals⟩ :=
    Relation.ReflTransGen.single (.env (.commit 3 firstPublished.shared.realmNode
      (by decide +kernel)))
  refine (reachable_stepCall rfl 9 _).trans (hcommit.trans (Relation.ReflTransGen.head
    (.env (.write ⟨1, 2⟩ TEMP_TABLE_ID_GATHERING_UNIQUE_PENDING_ID_BYTES [] (leBytes 32 2) rfl
      (by decide) (by decide))) ?_))
  exact reachable_stepCall rfl 9 _

theorem guta_submissions_apart_twice : bothPublished.shared.queue.length = 2 ∧
    bothPublished.shared.queue.Pairwise (fun p q => p.realmId = q.realmId →
      (p.oldRealmRoot = q.oldRealmRoot → AcceptedApart bothPublished.shared.claims p.call q.call
        p.realmId (resubmissionBytes p.oldRealmRoot)) ∧ p.uniquePendingId ≠ q.uniquePendingId) :=
  ⟨by decide +kernel, guta_submissions_apart reachable_bothPublished⟩

end PsyNode.Edge
