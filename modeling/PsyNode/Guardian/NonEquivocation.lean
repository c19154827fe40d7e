/-
PsyNode.Guardian.NonEquivocation
**A GUARDIAN DOES NOT EQUIVOCATE.**  Whatever is committed, each transaction of the
journal *advances* it (`Advances`): a halted account keeps its row, an imported nonce
stays imported, and a signed row keeps its message and request until its nonce is
imported.

So the message of every use of the key stays bound: either its nonce is imported, and
nothing is reserved for it again, or its row is there, and a reservation has to agree
with it.
-/
import PsyNode.Guardian.Signer

namespace PsyNode.Guardian

open Lib.ByteCodec Lib List Function GuardianAccount Option

variable {H : Type} {journal journal' : Journal H}

/-! ## §1. Journals only advance. -/

/-- The account has been halted. -/
def Halted (journal : Journal H) (network user : Nat) : Prop :=
  ∃ account, journal.accounts (network, user) = some account ∧ account.state = .halted

/-- The account has imported a session with this nonce or a later one. -/
def Imported (journal : Journal H) (key : Nat × Nat × Nat) : Prop :=
  ∃ account, journal.accounts (key.1, key.2.1) = some account ∧ account.hasImported key.2.2

/-- Two rows for the same message, verified for the same request. -/
def SameMessage (row row' : GuardianSigned H) : Prop :=
  row'.message = row.message ∧ row'.requestBytes = row.requestBytes

/-- **WHAT A COMMIT MAY CHANGE.** -/
structure Advances (journal journal' : Journal H) : Prop where
  halted : ∀ network user, Halted journal network user →
    journal'.accounts (network, user) = journal.accounts (network, user)
  imported : ∀ key, Imported journal key → Imported journal' key
  rows : ∀ key row, journal.signed key = some row →
    Imported journal' key ∨ ∃ row', journal'.signed key = some row' ∧ SameMessage row row'

theorem Advances.of_eq (haccounts : journal'.accounts = journal.accounts)
    (hsigned : journal'.signed = journal.signed) : Advances journal journal' where
  halted := by
    intro network user _
    rw [haccounts]
  imported := by
    intro key h
    unfold Imported
    rw [haccounts]
    exact h
  rows := by
    intro key row h
    rw [hsigned]
    exact Or.inr ⟨row, h, rfl, rfl⟩

theorem Advances.refl (journal : Journal H) : Advances journal journal := .of_eq rfl rfl

variable {network user : Nat}

theorem Halted.of_eq (h : Halted journal network user)
    (heq : journal'.accounts (network, user) = journal.accounts (network, user)) :
    Halted journal' network user := by
  unfold Halted
  rw [heq]
  exact h

theorem Advances.trans {journal'' : Journal H} (h : Advances journal journal')
    (h' : Advances journal' journal'') : Advances journal journal'' where
  halted := by
    intro network user hhalted
    have heq := h.halted network user hhalted
    rw [h'.halted network user (hhalted.of_eq heq), heq]
  imported := fun key hkey => h'.imported key (h.imported key hkey)
  rows := by
    intro key row hrow
    rcases h.rows key row hrow with himported | ⟨row', hrow', hm, hb⟩
    · exact Or.inl (h'.imported key himported)
    rcases h'.rows key row' hrow' with himported | ⟨row'', hrow'', hm', hb'⟩
    · exact Or.inl himported
    exact Or.inr ⟨row'', hrow'', hm'.trans hm, hb'.trans hb⟩

variable {signed : GuardianSigned H}

/-- A signed row is written in a free place, or over a row with its message. -/
theorem advances_insertSigned
    (h : ∀ row, journal.signed signed.key = some row → SameMessage row signed) :
    Advances journal (insertSigned journal signed) where
  halted := fun _ _ _ => rfl
  imported := fun _ hkey => hkey
  rows := by
    intro key row hrow
    right
    by_cases hkey : key = signed.key
    · subst hkey
      exact ⟨signed, update_self .., h row hrow⟩
    · exact ⟨row, (update_of_ne hkey ..).trans hrow, rfl, rfl⟩

variable {account : GuardianAccount H}

theorem not_halted (h : journal.accounts (network, user) = some account)
    (hactive : account.state = .active) : ¬ Halted journal network user := by
  rintro ⟨row, hrow, hhalted⟩
  rw [← some.inj (h.symm.trans hrow), hactive] at hhalted
  cases hhalted

/-- Only the row of an active account is written again, and its imported nonce does not
go back. -/
theorem advances_insertAccount {old : GuardianAccount H}
    (hold : journal.accounts (account.networkMagic, account.userId) = some old)
    (hactive : old.state = .active)
    (himported : ∀ nonce, old.hasImported nonce → account.hasImported nonce) :
    Advances journal (insertAccount journal account) := by
  have himp : ∀ key, Imported journal key → Imported (insertAccount journal account) key := by
    intro key hkey
    obtain ⟨row, hrow, hnonce⟩ := hkey
    by_cases hkey : (key.1, key.2.1) = (account.networkMagic, account.userId)
    · rw [hkey, hold] at hrow
      cases hrow
      refine ⟨account, ?_, himported _ hnonce⟩
      rw [hkey]
      exact update_self ..
    · exact ⟨row, (update_of_ne hkey ..).trans hrow, hnonce⟩
  refine ⟨?_, himp, ?_⟩
  · intro network user hhalted
    refine update_of_ne ?_ ..
    rintro ⟨⟩
    exact not_halted hold hactive hhalted
  · intro key row hrow
    exact Or.inr ⟨row, hrow, rfl, rfl⟩

variable {nonce : Nat}

/-- The pruned rows are those of imported nonces. -/
theorem advances_pruneImportedHistory (h : Imported journal (network, user, nonce)) :
    Advances journal (pruneImportedHistory journal network user nonce) := by
  refine ⟨fun _ _ _ => rfl, fun _ hkey => hkey, ?_⟩
  intro key row hrow
  by_cases hkey : key.1 = network ∧ key.2.1 = user ∧ key.2.2 ≤ nonce
  · left
    obtain ⟨account, haccount, hnonce⟩ := h
    refine ⟨account, ?_, ?_⟩
    · rw [hkey.1, hkey.2.1]
      exact haccount
    · unfold hasImported at hnonce ⊢
      rw [Option.any_eq_true] at hnonce ⊢
      obtain ⟨imported, himported, hle⟩ := hnonce
      simp only [decide_eq_true_eq] at hle ⊢
      exact ⟨imported, himported, hkey.2.2.trans hle⟩
  · right
    refine ⟨row, ?_, rfl, rfl⟩
    unfold pruneImportedHistory
    dsimp only
    rw [if_neg hkey]
    exact hrow

variable [DecidableEq H] {db : GuardianDb H}

/-! ## §2. Reading rows. -/

variable {α : Type}

/-- A row is read under its own key. -/
theorem accountIn_eq_ok (h : accountIn db journal network user = .ok account) :
    journal.accounts (network, user) = some account ∧ account.networkMagic = network ∧
      account.userId = user := by
  unfold accountIn at h
  split at h
  next => cases h
  next row hrow =>
    simp only [bind_eq_ok, require_eq_ok, pure_eq_ok] at h
    obtain ⟨_, hkey, _, _, rfl⟩ := h
    rw [Prod.mk.injEq] at hkey
    exact ⟨hrow, hkey⟩

variable {row : GuardianSigned H}

theorem decodeSigned_eq_ok {key : Nat × Nat × Nat}
    (h : decodeSigned db key row = .ok signed) : row = signed ∧ signed.key = key := by
  unfold decodeSigned at h
  simp only [bind_eq_ok, require_eq_ok, pure_eq_ok] at h
  obtain ⟨_, hkey, _, _, rfl⟩ := h
  exact ⟨rfl, hkey⟩

theorem signedIn_eq_ok {signed : Option (GuardianSigned H)}
    (h : signedIn db journal network user nonce = .ok signed) :
    journal.signed (network, user, nonce) = signed ∧
      ∀ row ∈ signed, row.key = (network, user, nonce) := by
  unfold signedIn at h
  split at h
  next hrow =>
    rw [Except.ok.injEq] at h
    subst h
    exact ⟨hrow, by simp⟩
  next row hrow =>
    simp only [bind_eq_ok, pure_eq_ok] at h
    obtain ⟨signed, hdecode, _, _, rfl⟩ := h
    obtain ⟨rfl, hkey⟩ := decodeSigned_eq_ok hdecode
    refine ⟨hrow, ?_⟩
    intro r hr
    cases hr
    exact hkey

/-! ## §3. Every transaction advances the journal. -/

section

variable {account : GuardianAccount H} {network user nonce : Nat} {reason : HaltReason}

theorem advances_writeHalt
    (hread : accountIn db journal network user = .ok account) (hactive : account.state = .active)
    (h : writeHalt db journal account reason = .ok journal') : Advances journal journal' := by
  obtain ⟨hrow, rfl, rfl⟩ := accountIn_eq_ok hread
  unfold writeHalt at h
  simp only [bind_eq_ok, pure_eq_ok] at h
  obtain ⟨_, _, rfl⟩ := h
  exact advances_insertAccount hrow hactive (fun _ hnonce => hnonce)

theorem advances_haltWith {out : Result α × Journal H}
    (hread : accountIn db journal network user = .ok account) (hactive : account.state = .active)
    (h : haltWith db journal account reason = .ok out) : Advances journal out.2 := by
  unfold haltWith at h
  simp only [bind_eq_ok, pure_eq_ok] at h
  obtain ⟨journal', hhalt, rfl⟩ := h
  exact advances_writeHalt hread hactive hhalt

theorem advances_haltAccount : Advances journal (haltAccount db network user reason journal).2 := by
  unfold haltAccount transact
  split
  next => exact .refl _
  rename_i out h
  obtain ⟨_, _, h⟩ := bind_eq_ok.mp h
  obtain ⟨account, hread, h⟩ := bind_eq_ok.mp h
  split at h
  next hactive =>
    simp only [bind_eq_ok, pure_eq_ok] at h
    obtain ⟨journal', hhalt, rfl⟩ := h
    exact advances_writeHalt hread hactive hhalt
  next =>
    rw [pure_eq_ok] at h
    subst h
    exact .refl _

theorem advances_saveAccount {value : GuardianAccount H} :
    Advances journal (saveAccount db value journal).2 := by
  unfold saveAccount transact
  split
  next => exact .refl _
  rename_i out h
  simp only [bind_eq_ok, ensureActive, require_eq_ok] at h
  obtain ⟨_, _, _, _, old, hread, _, hactive, _, hsame, h⟩ := h
  split at h
  next => exact advances_haltWith hread hactive h
  next =>
    rw [pure_eq_ok] at h
    subst h
    refine advances_insertAccount (accountIn_eq_ok hread).1 hactive ?_
    intro nonce hnonce
    unfold hasImported
    rw [hsame.2.2.1]
    exact hnonce

/-- **A RESERVATION**: its row is there, for the same message and request, and its nonce
is not imported unless it is already signed. -/
theorem reserveGuardianNonce_spec (db : GuardianDb H) (value : GuardianSigned H)
    (journal : Journal H) : Advances journal (reserveGuardianNonce db value journal).2 ∧
      ∀ row journal', reserveGuardianNonce db value journal = (.ok row, journal') →
        journal'.signed value.key = some row ∧ sameReservation row value ∧
          (row.signature = none → ¬ Imported journal' value.key) := by
  unfold reserveGuardianNonce transact
  split
  next => exact ⟨.refl _, by simp⟩
  rename_i out h
  simp only [bind_eq_ok, ensureActive, require_eq_ok] at h
  obtain ⟨_, _, _, hunsigned, _, _, account, hread, _, hactive, signed, hsigned, h⟩ := h
  have haccount := (accountIn_eq_ok hread).1
  obtain ⟨hrow, hkey⟩ := signedIn_eq_ok hsigned
  have hfresh : !account.hasImported value.nonce → ¬ Imported journal value.key := by
    intro hnot hconsumed
    obtain ⟨other, hother, himported⟩ := hconsumed
    obtain rfl : account = other := some.inj (haccount.symm.trans hother)
    rw [show account.hasImported value.nonce = true from himported] at hnot
    cases hnot
  cases signed with
  | some existing =>
    simp only [bind_eq_ok, require_eq_ok, pure_eq_ok] at h
    obtain ⟨_, hsame, _, himported, rfl⟩ := h
    refine ⟨.refl _, ?_⟩
    intro row journal' heq
    obtain ⟨hok, rfl⟩ := Prod.mk.inj heq
    cases hok
    exact ⟨hrow, hsame, fun hnone => hfresh (himported hnone)⟩
  | none =>
    simp only [bind_eq_ok, require_eq_ok] at h
    obtain ⟨_, hnot, _, _, _, _, _, _, _, _, h⟩ := h
    split at h
    next => cases h
    next =>
      simp only [bind_eq_ok, pure_eq_ok] at h
      obtain ⟨_, _, _, _, rfl⟩ := h
      refine ⟨advances_insertSigned ?_, ?_⟩
      · intro row hold
        exact absurd (hrow.symm.trans hold) (by simp)
      · intro row journal' heq
        obtain ⟨hok, rfl⟩ := Prod.mk.inj heq
        cases hok
        refine ⟨update_self .., by simp [sameReservation], ?_⟩
        exact fun _ => hfresh hnot

theorem advances_saveGuardianSignature (db : GuardianDb H) (network user nonce : Nat)
    (requestBytes : Bytes) (signature : FixedBytes 64) (journal : Journal H) : Advances journal
      (saveGuardianSignature db network user nonce requestBytes signature journal).2 := by
  unfold saveGuardianSignature transact
  split
  next => exact .refl _
  rename_i out h
  simp only [bind_eq_ok, ensureActive, require_eq_ok] at h
  obtain ⟨_, _, account, hread, _, hactive, signed, hsigned, h⟩ := h
  obtain ⟨hrow, hkey⟩ := signedIn_eq_ok hsigned
  cases signed with
  | none => cases h
  | some value =>
    simp only [bind_eq_ok, require_eq_ok] at h
    obtain ⟨_, _, h⟩ := h
    split at h
    next =>
      simp only [bind_eq_ok, pure_eq_ok] at h
      obtain ⟨_, _, rfl⟩ := h
      exact .refl _
    next =>
      simp only [bind_eq_ok, pure_eq_ok] at h
      obtain ⟨_, _, _, _, rfl⟩ := h
      refine advances_insertSigned ?_
      intro row hold
      have hvalue : value.key = (network, user, nonce) := hkey value rfl
      -- the row in place is the one that was read, without its signature
      rw [show GuardianSigned.key { value with signature := some signature } = value.key
        from rfl, hvalue, hrow] at hold
      cases hold
      exact ⟨rfl, rfl⟩

/-- **A RESPONSE** is of an active account, and changes nothing. -/
theorem authorizeResponse_spec (db : GuardianDb H) (network user nonce : Nat)
    (requestBytes : Bytes) (serialize : GuardianSigned H → Result α) (journal : Journal H) :
    (authorizeResponse db network user nonce requestBytes serialize journal).2 = journal ∧
      ∀ response journal', authorizeResponse db network user nonce requestBytes serialize journal =
          (.ok response, journal') →
        ¬ Halted journal network user ∧
          ∃ signed, signed.key = (network, user, nonce) ∧ serialize signed = .ok response := by
  unfold authorizeResponse transact
  split
  next => exact ⟨rfl, by simp⟩
  rename_i out h
  simp only [bind_eq_ok, ensureActive, require_eq_ok] at h
  obtain ⟨_, _, account, hread, _, hactive, h⟩ := h
  split at h
  next => cases h
  next row hrow =>
    simp only [bind_eq_ok, pure_eq_ok] at h
    obtain ⟨value, hdecode, _, _, _, _, response, hserialize, rfl⟩ := h
    refine ⟨rfl, ?_⟩
    intro response' journal' heq
    obtain ⟨hok, -⟩ := Prod.mk.inj heq
    cases hok
    exact ⟨not_halted (accountIn_eq_ok hread).1 hactive, value, (decodeSigned_eq_ok hdecode).2,
      hserialize⟩

end

/-! ## §4. Imports. -/

variable {checkpointId : Nat} {checkpointHash : H}

theorem advanceIncludedAccount_eq_ok {ext : Externals H} {advanced : GuardianAccount H}
    {saved states included : List (DepositTreeState H)} {session : GuardianSession H}
    (h : advanceIncludedAccount ext account saved session states checkpointId checkpointHash =
      .ok (advanced, included)) :
    advanced.networkMagic = account.networkMagic ∧ advanced.userId = account.userId ∧
      advanced.importedNonce = some session.nonce ∧
      session.nonce = account.importedNonce.getD 0 + 1 := by
  unfold advanceIncludedAccount at h
  simp only [bind_eq_ok, require_eq_ok, pure_eq_ok, Prod.mk.injEq] at h
  obtain ⟨_, _, _, _, _, _, _, _, _, hnext, _, _, _, _, _, _, _, _, _, _, _, _, _, _, _, _, _, _,
    rfl, _⟩ := h
  refine ⟨rfl, rfl, rfl, ?_⟩
  unfold checkedSucc at hnext
  split at hnext
  next => exact some.inj hnext
  next => cases hnext

variable {states depositTreeStates : List (DepositTreeState H)}

theorem replaceDepositTreeStates_tables
    (h : replaceDepositTreeStates db journal network user states = .ok journal') :
    journal'.accounts = journal.accounts ∧ journal'.signed = journal.signed := by
  refine foldlM_of_step (P := fun _ journal₁ => journal₁.accounts = journal.accounts ∧
    journal₁.signed = journal.signed) ?_ h ⟨rfl, rfl⟩
  intro _ _ _ _ _ _ hstep hsame
  simp only [bind_eq_ok, pure_eq_ok] at hstep
  obtain ⟨_, _, rfl⟩ := hstep
  exact hsame

variable {value : GuardianSession H}

/-- **THE NEXT SESSION**: its nonce becomes the imported one before its row is pruned. -/
theorem advances_importNextSession {out : Result (GuardianSession H) × Journal H}
    (hread : accountIn db journal value.networkMagic value.userId = .ok account)
    (hactive : account.state = .active)
    (h : importNextSession db value depositTreeStates checkpointId checkpointHash account
      journal = .ok out) : Advances journal out.2 := by
  obtain ⟨saved, _, h⟩ := bind_eq_ok.mp h
  split at h
  next => exact advances_haltWith hread hactive h
  next => cases h
  next advanced included hadvance =>
    simp only [bind_eq_ok, pure_eq_ok] at h
    obtain ⟨journal₁, hreplace, rfl⟩ := h
    obtain ⟨hrow, hnetwork, huser⟩ := accountIn_eq_ok hread
    obtain ⟨hn, hu, himported, hnext⟩ := advanceIncludedAccount_eq_ok hadvance
    obtain ⟨haccounts, hsigned⟩ := replaceDepositTreeStates_tables hreplace
    have hkey : (advanced.networkMagic, advanced.userId) = (value.networkMagic, value.userId) := by
      rw [hn, hu, hnetwork, huser]
    have hsame : Advances journal journal₁ := .of_eq haccounts hsigned
    have hold : journal₁.accounts (advanced.networkMagic, advanced.userId) = some account := by
      rw [hkey, haccounts]
      exact hrow
    have hinsert : Advances journal₁ (insertAccount journal₁ advanced) := by
      refine advances_insertAccount hold hactive ?_
      intro nonce hnonce
      unfold hasImported at hnonce ⊢
      rw [Option.any_eq_true] at hnonce
      obtain ⟨imported, hsome, hle⟩ := hnonce
      rw [hsome, getD_some] at hnext
      rw [himported, any_some, hnext]
      simp only [decide_eq_true_eq] at hle ⊢
      omega
    have hconsumed : Imported (insertAccount journal₁ advanced)
        (value.networkMagic, value.userId, value.nonce) := by
      refine ⟨advanced, ?_, ?_⟩
      · rw [← hkey]
        exact update_self ..
      · unfold hasImported
        rw [himported]
        simp
    exact (hsame.trans hinsert).trans (advances_pruneImportedHistory hconsumed)

theorem advances_importSession : Advances journal
      (importSession db value depositTreeStates checkpointId checkpointHash journal).2 := by
  unfold importSession transact
  split
  next => exact .refl _
  rename_i out h
  simp only [bind_eq_ok, ensureActive, require_eq_ok] at h
  obtain ⟨_, _, _, _, _, _, _, _, _, _, _, _, _, _, account, hread, _, hactive, _, _, _, _, _, _,
    existing, _, h⟩ := h
  cases existing with
  | some existing =>
    dsimp only at h
    split at h
    next => exact advances_haltWith hread hactive h
    next =>
      simp only [bind_eq_ok, pure_eq_ok] at h
      obtain ⟨_, _, _, _, rfl⟩ := h
      exact .refl _
  | none =>
    simp only [bind_eq_ok, require_eq_ok] at h
    obtain ⟨_, _, _, _, h⟩ := h
    split at h
    next => exact advances_haltWith hread hactive h
    split at h
    next => exact advances_haltWith hread hactive h
    obtain ⟨signed, _, h⟩ := bind_eq_ok.mp h
    split at h
    next => exact advances_haltWith hread hactive h
    next => exact advances_importNextSession hread hactive h

/-! ## §5. The uses of the key stay bound. -/

/-- The message of a use of the key cannot be replaced any more. -/
def Bound (journal : Journal H) (use : KeyUse H) : Prop :=
  Imported journal use.verified.key ∨
    ∃ row, journal.signed use.verified.key = some row ∧ row.message = use.message ∧
      row.requestBytes = use.verified.requestBytes

/-- Two uses for one nonce are the same decision. -/
def Agree (use use' : KeyUse H) : Prop :=
  use.verified.key = use'.verified.key →
    use.message = use'.message ∧ use.verified.requestBytes = use'.verified.requestBytes

/-- A use signs what was verified, for a nonce that is not imported. -/
def Fresh (use : KeyUse H) : Prop :=
  use.message = use.verified.message ∧
    ∀ imported ∈ use.importedNonce, imported < use.verified.nonce

/-- Between the reservation and the use of the key. -/
def PhaseOk (journal : Journal H) : Phase H → Prop
  | .reserved call row =>
    journal.signed call.verified.key = some row ∧ sameReservation row call.verified ∧
      (row.signature = none → ¬ Imported journal call.verified.key)
  | _ => True

/-- What holds of every state a run reaches. -/
structure Sound (state : GuardianState H) : Prop where
  bound : ∀ use ∈ state.keyUses, Bound state.journal use
  agree : ∀ use ∈ state.keyUses, ∀ use' ∈ state.keyUses, Agree use use'
  fresh : ∀ use ∈ state.keyUses, Fresh use
  phase : PhaseOk state.journal state.phase

omit [DecidableEq H] in
theorem Bound.advances {use : KeyUse H} (h : Bound journal use)
    (hadv : Advances journal journal') : Bound journal' use := by
  rcases h with himported | ⟨row, hrow, hm, hb⟩
  · exact Or.inl (hadv.imported _ himported)
  rcases hadv.rows _ row hrow with himported | ⟨row', hrow', hm', hb'⟩
  · exact Or.inl himported
  · exact Or.inr ⟨row', hrow', hm'.trans hm, hb'.trans hb⟩

omit [DecidableEq H] in
theorem agree_symm {use use' : KeyUse H} (h : Agree use use') : Agree use' use := by
  intro hkey
  obtain ⟨hm, hb⟩ := h hkey.symm
  exact ⟨hm.symm, hb.symm⟩

variable {state : GuardianState H}

/-- **WHAT AN EVENT CAN DO**: commit, use the key, or release a response. -/
inductive Moves (state : GuardianState H) : GuardianState H → Prop
  | commit {journal' : Journal H} {phase : Phase H} (hadv : Advances state.journal journal')
      (hphase : PhaseOk journal' phase) :
      Moves state { state with journal := journal', phase := phase }
  | use {call : SignCall H} {row : GuardianSigned H} {signature : FixedBytes 64}
      (hphase : state.phase = .reserved call row) (hrow : row.signature = none) :
      Moves state { state with
        phase := .signed call row signature
        keyUses := state.keyUses ++ [⟨call.verified, row.message,
          (state.journal.accounts (call.verified.networkMagic, call.verified.userId)).bind
            (·.importedNonce)⟩] }
  | release {response : GuardianSignResponse H}
      (hactive : ¬ Halted state.journal response.networkMagic response.userId) :
      Moves state { state with phase := .idle, responses := state.responses ++ [response] }
  | stay : Moves state state

omit [DecidableEq H] in
/-- A response carries the account of the row it is made of. -/
theorem signResponse_eq_ok {commitment : H} {memberIndex : Nat} {response : GuardianSignResponse H}
    (h : signResponse db commitment memberIndex signed = .ok response) :
    response.networkMagic = signed.networkMagic ∧ response.userId = signed.userId := by
  unfold signResponse at h
  split at h
  next => cases h
  next => rw [← Except.ok.inj h]; exact ⟨rfl, rfl⟩

theorem moves_release (state : GuardianState H) (network user nonce : Nat) (requestBytes : Bytes)
    (commitment : H) (memberIndex : Nat) :
    Moves state (release state (authorizeResponse db network user nonce requestBytes
      (signResponse db commitment memberIndex) state.journal)) := by
  obtain ⟨hjournal, hspec⟩ := authorizeResponse_spec db network user nonce requestBytes
    (signResponse db commitment memberIndex) state.journal
  unfold release
  split
  next response journal' heq =>
    obtain ⟨hactive, signed, hkey, hserialize⟩ := hspec response journal' heq
    rw [heq] at hjournal
    obtain ⟨hn, hu⟩ := signResponse_eq_ok hserialize
    unfold GuardianSigned.key at hkey
    simp only [Prod.mk.injEq] at hkey
    subst hjournal
    refine .release ?_
    rw [hn, hu, hkey.1, hkey.2.1]
    exact hactive
  next e journal' heq =>
    rw [heq] at hjournal
    subst hjournal
    exact .commit (.refl _) trivial

/-- Outside a call there is nothing to keep between the reservation and the key. -/
theorem phaseOk_of_idle (h : state.phase = .idle) : PhaseOk journal' state.phase := by
  rw [h]
  trivial

theorem moves_step (db : GuardianDb H) (state : GuardianState H) (event : GuardianEvent H) :
    Moves state (step db state event) := by
  unfold step
  split
  next call hphase =>
    obtain ⟨hadv, hspec⟩ := reserveGuardianNonce_spec db call.verified state.journal
    split
    next row journal' heq =>
      rw [heq] at hadv
      exact .commit hadv (hspec row journal' heq)
    next e journal' heq =>
      rw [heq] at hadv
      exact .commit hadv (phaseOk_of_idle hphase)
  next call row signature hphase =>
    split
    next => exact .commit (.refl _) trivial
    next => exact .commit (.refl _) trivial
    next hrow => exact .use hphase hrow
  next call row signature hphase =>
    have hadv := advances_saveGuardianSignature db row.networkMagic row.userId row.nonce
      row.requestBytes signature state.journal
    split
    next journal' heq =>
      rw [heq] at hadv
      exact .commit hadv trivial
    next journal' heq =>
      rw [heq] at hadv
      exact .commit hadv trivial
  next => exact moves_release ..
  next => exact moves_release ..
  next hphase => exact .commit advances_importSession (phaseOk_of_idle hphase)
  next hphase => exact .commit advances_saveAccount (phaseOk_of_idle hphase)
  next hphase => exact .commit advances_haltAccount (phaseOk_of_idle hphase)
  next => exact .commit (.refl _) trivial
  next => exact .stay

theorem Sound.commit {phase : Phase H} {responses : List (GuardianSignResponse H)}
    (h : Sound state) (hadv : Advances state.journal journal') (hphase : PhaseOk journal' phase) :
    Sound ⟨journal', phase, state.keyUses, responses⟩ where
  bound := fun use huse => (h.bound use huse).advances hadv
  agree := h.agree
  fresh := h.fresh
  phase := hphase

/-- **THE KEY IS USED**: every earlier use for this nonce is bound to the reserved row. -/
theorem Sound.use {call : SignCall H} {signature : FixedBytes 64} (h : Sound state)
    (hphase : state.phase = .reserved call row) (hrow : row.signature = none) : Sound { state with
      phase := .signed call row signature
      keyUses := state.keyUses ++ [⟨call.verified, row.message,
        (state.journal.accounts (call.verified.networkMagic, call.verified.userId)).bind
          (·.importedNonce)⟩] } := by
  have hok := h.phase
  rw [hphase] at hok
  obtain ⟨hplace, hsame, hnot⟩ := hok
  have hnot := hnot hrow
  unfold sameReservation at hsame
  simp only [Bool.and_eq_true, decide_eq_true_eq] at hsame
  obtain ⟨⟨⟨⟨⟨-, hbytes⟩, -⟩, -⟩, -⟩, hmessage⟩ := hsame
  refine ⟨?_, ?_, ?_, trivial⟩
  · rw [forall_mem_append, forall_mem_singleton]
    exact ⟨h.bound, Or.inr ⟨row, hplace, rfl, hbytes⟩⟩
  · -- an earlier use is bound, and not by the import of its nonce
    have hnew : ∀ use ∈ state.keyUses, Agree use ⟨call.verified, row.message,
        (state.journal.accounts (call.verified.networkMagic, call.verified.userId)).bind
          (·.importedNonce)⟩ := by
      intro use huse hkey
      rcases h.bound use huse with himported | ⟨row', hplace', hm, hb⟩
      · rw [hkey] at himported
        exact absurd himported hnot
      · rw [hkey] at hplace'
        obtain rfl : row = row' := some.inj (hplace.symm.trans hplace')
        exact ⟨hm.symm, hb.symm.trans hbytes⟩
    simp only [forall_mem_append, forall_mem_singleton]
    exact ⟨fun use huse => ⟨h.agree use huse, hnew use huse⟩,
      fun use huse => agree_symm (hnew use huse), fun _ => ⟨rfl, rfl⟩⟩
  · rw [forall_mem_append, forall_mem_singleton]
    refine ⟨h.fresh, hmessage, ?_⟩
    intro imported himported
    obtain ⟨account, haccount, hnonce⟩ := Option.bind_eq_some_iff.mp himported
    by_contra hle
    refine hnot ⟨account, haccount, ?_⟩
    unfold hasImported
    rw [hnonce, any_some, decide_eq_true_eq]
    exact Nat.not_lt.mp hle

/-- **ONE EVENT KEEPS IT.** -/
theorem Sound.step (db : GuardianDb H) (h : Sound state) (event : GuardianEvent H) :
    Sound (step db state event) := by
  have hmoves := moves_step db state event
  generalize Guardian.step db state event = state' at hmoves
  cases hmoves with
  | commit hadv hphase => exact h.commit hadv hphase
  | use hphase hrow => exact h.use hphase hrow
  | release hactive => exact h.commit (.refl _) trivial
  | stay => exact h

theorem Sound.run (db : GuardianDb H) (h : Sound state) (events : List (GuardianEvent H)) :
    Sound (run db events state) := by
  induction events generalizing state with
  | nil => exact h
  | cons event events ih => exact ih (h.step db event)

theorem Sound.opened (journal : Journal H) : Sound (GuardianState.opened journal) where
  bound := by simp [GuardianState.opened]
  agree := by simp [GuardianState.opened]
  fresh := by simp [GuardianState.opened]
  phase := trivial

/-! ## §6. A halted account stays silent. -/

/-- The responses released for one account. -/
def responsesFor (network user : Nat) (state : GuardianState H) : List (GuardianSignResponse H) :=
  state.responses.filter (fun r => r.networkMagic = network ∧ r.userId = user)

section
variable (db : GuardianDb H) {network user : Nat} (h : Halted state.journal network user)
include h

/-- A halted account keeps its row, and releases nothing. -/
theorem halted_step (event : GuardianEvent H) : Halted (step db state event).journal network user ∧
      responsesFor network user (step db state event) = responsesFor network user state := by
  have hmoves := moves_step db state event
  generalize step db state event = state' at hmoves
  cases hmoves with
  | commit hadv _ => exact ⟨h.of_eq (hadv.halted network user h), rfl⟩
  | use _ _ => exact ⟨h, rfl⟩
  | release hactive =>
    rename_i response
    refine ⟨h, ?_⟩
    have hother : ¬ (response.networkMagic = network ∧ response.userId = user) := by
      intro hsame
      rw [hsame.1, hsame.2] at hactive
      exact hactive h
    unfold responsesFor
    rw [filter_append, filter_singleton, decide_eq_false hother]
    exact append_nil _
  | stay => exact ⟨h, rfl⟩

theorem halted_run (events : List (GuardianEvent H)) :
    responsesFor network user (run db events state) = responsesFor network user state := by
  induction events generalizing state with
  | nil => rfl
  | cons event events ih =>
    obtain ⟨hhalted, hresponses⟩ := halted_step db h event
    show responsesFor network user (run db events (step db state event)) = _
    rw [ih hhalted, hresponses]

end

/-- **A GUARDIAN DOES NOT EQUIVOCATE.**  In every run, with crashes between any two
transactions:

  * two messages signed for one `(network, user, nonce)` are equal, were verified for the same
    request bytes, and are the message that was verified;
  * the key is not used for a nonce at or below the imported one;
  * an account that is halted releases no response again. -/
theorem guardian_signs_once (db : GuardianDb H) (journal : Journal H)
    (events : List (GuardianEvent H)) : (∀ use ∈ (run db events (.opened journal)).keyUses,
        ∀ use' ∈ (run db events (.opened journal)).keyUses, use.verified.key = use'.verified.key →
          use.message = use'.message ∧ use.verified.requestBytes = use'.verified.requestBytes) ∧
      (∀ use ∈ (run db events (.opened journal)).keyUses, use.message = use.verified.message ∧
        ∀ imported ∈ use.importedNonce, imported < use.verified.nonce) ∧
      ∀ network user, Halted (run db events (.opened journal)).journal network user →
        ∀ more, responsesFor network user (run db (events ++ more) (.opened journal)) =
          responsesFor network user (run db events (.opened journal)) := by
  have hsound := (Sound.opened journal).run db events
  refine ⟨hsound.agree, hsound.fresh, ?_⟩
  intro network user hhalted more
  have hrun : run db (events ++ more) (.opened journal) =
      run db more (run db events (.opened journal)) := foldl_append ..
  rw [hrun]
  exact halted_run db hhalted more

/-- The request of nonce 1, with hashes as numbers and every check of the surroundings passed. -/
def sampleDb : GuardianDb Nat where
  validateHash := fun _ => .ok ()
  zeroHash := 0
  zeroRoot := 0
  frontierRoot := fun _ _ => 0
  appendMerkleLeaf := fun frontier _ _ => (frontier, 0)
  withdrawalTreeLeaf := fun _ => 0
  sha256 := fun _ => .replicate 32 0
  fromCanonicalBytes := fun _ => .ok ⟨3, 7, BRIDGE_USER_ID, 1, .bridge, "", [], []⟩
  canonicalBytes := fun _ => .ok []
  decodeRequestJson := fun _ => .error .malformedRequest
  tracePublicKey := fun _ => .ok 5
  validateAuthorization := fun _ => .ok ()
  publicKey := .replicate 33 2

/-- An account that has imported nothing. -/
def sampleJournal : Journal Nat where
  signer := some sampleDb.publicKey
  accounts := fun key =>
    if key = (7, BRIDGE_USER_ID) then
      some ⟨7, BRIDGE_USER_ID, .active, 0, 0, none, 5, none, [], none⟩
    else none
  signed := fun _ => none
  sessions := fun _ => none
  depositTreeStates := fun _ => none

/-- The process dies after the key was used and signs again; then the account is halted. -/
def sampleEvents : List (GuardianEvent Nat) :=
  let call : SignCall Nat :=
    ⟨⟨7, BRIDGE_USER_ID, 1, [1, 2], 0, 0, .replicate 32 9, [], none⟩, 0, 0⟩
  let signature : FixedBytes 64 := .replicate 64 1
  [.reserve call, .sign (some signature), .crash,
    .reserve call, .sign (some signature), .save, .authorize,
    .haltAccount 7 BRIDGE_USER_ID .checkpointConflict]

theorem guardian_signs_once_after_crash :
    (run sampleDb sampleEvents (.opened sampleJournal)).keyUses.length = 2 ∧
      (responsesFor 7 BRIDGE_USER_ID (run sampleDb sampleEvents (.opened sampleJournal))).length =
        1 ∧
      ∀ more, responsesFor 7 BRIDGE_USER_ID
          (run sampleDb (sampleEvents ++ more) (.opened sampleJournal)) =
        responsesFor 7 BRIDGE_USER_ID (run sampleDb sampleEvents (.opened sampleJournal)) := by
  refine ⟨by decide +kernel, by decide +kernel, ?_⟩
  refine (guardian_signs_once sampleDb sampleJournal sampleEvents).2.2 7 BRIDGE_USER_ID ?_
  exact ⟨_, rfl, rfl⟩

/-- **NO RUN REWRITES THE JOURNAL.**  Over any events and crashes, from any state: the row of a
halted account is unchanged, an imported nonce stays imported, and a reserved message keeps its
bytes until its nonce is imported. -/
theorem guardian_journal_advances (db : GuardianDb H) (state : GuardianState H)
    (events : List (GuardianEvent H)) :
    Advances state.journal (run db events state).journal := by
  induction events generalizing state with
  | nil => exact .refl _
  | cons event events ih =>
    refine Advances.trans ?_ (ih (step db state event))
    have hmoves := moves_step db state event
    generalize step db state event = state' at hmoves
    cases hmoves with
    | commit hadv _ => exact hadv
    | use _ _ => exact .refl _
    | release _ => exact .refl _
    | stay => exact .refl _

end PsyNode.Guardian
