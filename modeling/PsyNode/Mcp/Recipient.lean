/-
PsyNode.Mcp.Recipient
**WHOM AN ALLOWLIST ENTRY ADMITS** (`policy.rs` of `psy_mcp_server`).

A spending policy compares recipients by `normalize_recipient`: user ids, shielded addresses,
sellers' URLs and plain texts are all mapped into one space of strings, without a tag.
-/
import Mathlib.Data.List.DropRight
import Mathlib.Tactic

namespace PsyNode.Mcp

open List Nat

/-! ## §1. The texts of the source. -/

/-- A text as its characters. -/
abbrev Text := List Char

/-- `char::is_whitespace`. -/
def isWhitespace (c : Char) : Bool :=
  (0x9 ≤ c.toNat && c.toNat ≤ 0xD) || (0x2000 ≤ c.toNat && c.toNat ≤ 0x200A) ||
    [0x20, 0x85, 0xA0, 0x1680, 0x2028, 0x2029, 0x202F, 0x205F, 0x3000].contains c.toNat

/-- `str::trim`. -/
def trim (s : Text) : Text := (s.dropWhile isWhitespace).rdropWhile isWhitespace

/-- `trim` and `to_ascii_lowercase`. -/
def clean (raw : Text) : Text := (trim raw).map Char.toLower

/-- What follows the first `://`. -/
def afterScheme : Text → Option Text
  | [] => none
  | c :: cs => "://".toList.isPrefixOf? (c :: cs) <|> afterScheme cs

/-- The host of a URL: up to the path, without user information and final dots. -/
def hostOf (rest : Text) : Text :=
  ((rest.takeWhile (· ∉ ['/', '?', '#'])).rtakeWhile (· ≠ '@')).rdropWhile (· = '.')

/-- `str::parse::<u128>`. -/
def parseU128 (s : Text) : Option Nat :=
  let digits := if s.head? = some '+' then s.tail else s
  if digits ≠ [] ∧ digits.all Char.isDigit ∧ Nat.ofDigitChars 10 digits 0 < 2 ^ 128 then
    some (Nat.ofDigitChars 10 digits 0)
  else none

/-- `char::is_ascii_hexdigit`. -/
def isHexDigit (c : Char) : Bool :=
  c.isDigit || ('a' ≤ c && c ≤ 'f') || ('A' ≤ c && c ≤ 'F')

/-- `normalize_recipient`. -/
def normalizeRecipient (raw : Text) : Text :=
  let s := clean raw
  if s.isEmpty then s
  else match afterScheme s with
    | some rest => hostOf rest
    | none => match ("psy-".toList.isPrefixOf? s).bind parseU128 with
      | some n => Nat.toDigits 10 n
      | none => match parseU128 s with
        | some n => Nat.toDigits 10 n
        | none => match "0x".toList.isPrefixOf? s with
          | some hex => if hex ≠ [] ∧ hex.all isHexDigit then hex else s
          | none => s

/-- `self` is not a payee. -/
def SELF_RECIPIENT : Text := "self".toList

/-- `create_policy` keeps the normal forms of the recipients that the owner writes. -/
def storedRecipients (recipients : List Text) : List Text := recipients.map normalizeRecipient

/-- The recipient check of `denial_reason`, for a payment whose payee goes by `recipients`. -/
def recipientDenial (allowedRecipients : Option (List Text)) (recipients : List Text) :
    Option String :=
  match allowedRecipients with
  | none => none
  | some allowed =>
    let primary := String.ofList (recipients.head?.getD [])
    let approved := allowed.length
    if recipients.all (· = SELF_RECIPIENT) then none
    else if (recipients.map normalizeRecipient).any (· ∈ allowed) then none
    else some (s!"recipient `{primary}` is not on this policy's allowlist " ++
      s!"({approved} approved recipient(s)); ask the owner to add it")

/-! ## §2. What a text names. -/

/-- The four kinds of payees. -/
inductive Principal where
  | user (id : Nat)
  | shielded (hex : Text)
  | seller (host : Text)
  | other (text : Text)
deriving DecidableEq

/-- What is left of a principal without its kind. -/
def Principal.text : Principal → Text
  | user id => Nat.toDigits 10 id
  | shielded t | seller t | other t => t

/-- The reading of a text without blanks around it, in lower case. -/
def classify (s : Text) : Principal :=
  match afterScheme s with
  | some rest => .seller (hostOf rest)
  | none => match (("psy-".toList.isPrefixOf? s).bind parseU128).or (parseU128 s) with
    | some n => .user n
    | none => match "0x".toList.isPrefixOf? s with
      | some hex => if hex ≠ [] ∧ hex.all isHexDigit then .shielded hex else .other s
      | none => .other s

/-- **WHAT A RECIPIENT NAMES.** -/
def principal (raw : Text) : Principal := classify (clean raw)

/-- **THE NORMAL FORM FORGETS THE KIND.** -/
theorem normalizeRecipient_eq (raw : Text) : normalizeRecipient raw = (principal raw).text := by
  unfold normalizeRecipient principal classify
  generalize clean raw = s
  cases s with
  | nil => rfl
  | cons c cs =>
    dsimp only [isEmpty_cons]
    cases afterScheme (c :: cs) with
    | some rest => rfl
    | none =>
      cases ("psy-".toList.isPrefixOf? (c :: cs)).bind parseU128 with
      | some n => rfl
      | none =>
        cases parseU128 (c :: cs) with
        | some n => rfl
        | none =>
          cases "0x".toList.isPrefixOf? (c :: cs) with
          | none => rfl
          | some hex =>
            show (if _ then hex else c :: cs) = (if _ then .shielded hex else .other (c :: cs) :
              Principal).text
            split <;> rfl

/-! ## §3. Reading a normal form again. -/

/-- The text is the host of some URL: it has none of the characters that end or start one, and no
final dot. -/
def HostLike (t : Text) : Prop := (∀ c ∈ t, c ∉ ['/', '?', '#', '@']) ∧ t.getLast? ≠ some '.'

theorem hostLike_hostOf (rest : Text) : HostLike (hostOf rest) := by
  unfold hostOf
  constructor
  · intro c hc
    have hc := IsPrefix.mem hc <| rdropWhile_prefix _ _
    have hat := mem_rtakeWhile_imp hc
    have hend := mem_takeWhile_imp ((rtakeWhile_suffix _ _).subset hc)
    simp only [decide_eq_true_eq, mem_cons, not_or, not_mem_nil, not_false_iff, and_true]
      at hat hend ⊢
    exact ⟨hend.1, hend.2.1, hend.2.2, hat⟩
  · intro hlast
    obtain ⟨hne, hdot⟩ := mem_getLast?_eq_getLast hlast
    exact rdropWhile_last_not _ _ hne (decide_eq_true hdot.symm)

/-- What the reading of a text says about what it names. -/
def Principal.ReadFrom (s : Text) : Principal → Prop
  | shielded hex => hex.all isHexDigit ∧ hex <:+ s
  | seller host => HostLike host
  | other t => t = s
  | user _ => True

theorem classify_readFrom (s : Text) : (classify s).ReadFrom s := by
  unfold classify
  cases afterScheme s with
  | some rest => exact hostLike_hostOf rest
  | none =>
    cases (("psy-".toList.isPrefixOf? s).bind parseU128).or (parseU128 s) with
    | some n => trivial
    | none =>
      cases hprefix : "0x".toList.isPrefixOf? s with
      | none => rfl
      | some hex =>
        dsimp only
        by_cases hhex : hex ≠ [] ∧ hex.all isHexDigit
        · rw [if_pos hhex]
          exact ⟨hhex.2, _, isPrefixOf?_eq_some_iff_append_eq.mp hprefix⟩
        · rw [if_neg hhex]
          rfl

/-- A text without a slash is no URL. -/
theorem classify_ne_seller {s host : Text} (h : '/' ∉ s) : classify s ≠ .seller host := by
  have hnone : afterScheme s = none := by
    induction s with
    | nil => rfl
    | cons c cs ih =>
      have hprefix : "://".toList.isPrefixOf? (c :: cs) = none := by
        rw [Option.eq_none_iff_forall_ne_some]
        intro rest hrest
        rw [← isPrefixOf?_eq_some_iff_append_eq.mp hrest] at h
        exact h (mem_append_left _ (by decide))
      rw [afterScheme, hprefix]
      exact ih (fun hmem => h (mem_cons_of_mem c hmem))
  unfold classify
  rw [hnone]
  cases (("psy-".toList.isPrefixOf? s).bind parseU128).or (parseU128 s) with
  | some n => simp
  | none =>
    cases "0x".toList.isPrefixOf? s with
    | none => simp
    | some hex =>
      dsimp only
      split <;> simp

theorem toNat_toLower (c : Char) :
    c.toLower.toNat = if 65 ≤ c.toNat ∧ c.toNat ≤ 90 then c.toNat + 32 else c.toNat := by
  unfold Char.toLower
  split
  next h =>
    have h : 65 ≤ c.val.toNat ∧ c.val.toNat ≤ 90 := h
    show (c.val + 32).toNat = if 65 ≤ c.val.toNat ∧ c.val.toNat ≤ 90 then _ else _
    rw [if_pos h, UInt32.toNat_add]
    exact mod_eq_of_lt (show c.val.toNat + 32 < _ by omega)
  next h => exact (if_neg h).symm

theorem not_isWhitespace {c : Char} (h : 33 ≤ c.toNat ∧ c.toNat ≤ 126) : ¬isWhitespace c := by
  unfold isWhitespace
  simp only [contains_eq_mem, Bool.or_eq_true, Bool.and_eq_true, decide_eq_true_eq, mem_cons,
    not_mem_nil, or_false]
  omega

theorem isWhitespace_toLower (c : Char) : isWhitespace c.toLower = isWhitespace c := by
  by_cases h : 65 ≤ c.toNat ∧ c.toNat ≤ 90
  · have hlower := toNat_toLower c
    rw [if_pos h] at hlower
    rw [Bool.eq_false_of_not_eq_true (not_isWhitespace (c := c) (by omega)),
      Bool.eq_false_of_not_eq_true (not_isWhitespace (c := c.toLower) (by omega))]
  · rw [show c.toLower = c from Char.toNat_inj.mp ((toNat_toLower c).trans (if_neg h))]

theorem toLower_toLower (c : Char) : c.toLower.toLower = c.toLower := by
  refine Char.toNat_inj.mp ((toNat_toLower c.toLower).trans (if_neg ?_))
  rw [toNat_toLower]
  split <;> omega

theorem trim_map_toLower (s : Text) : trim (s.map Char.toLower) = (trim s).map Char.toLower := by
  have hsame : isWhitespace ∘ Char.toLower = isWhitespace := funext isWhitespace_toLower
  unfold trim rdropWhile
  rw [dropWhile_map, hsame, ← map_reverse, dropWhile_map, hsame, map_reverse]

theorem trim_trim (s : Text) : trim (trim s) = trim s := by
  have hfirst : (trim s).dropWhile isWhitespace = trim s := by
    refine dropWhile_eq_self_iff.mpr fun hlen => ?_
    have hstart : trim s <+: s.dropWhile isWhitespace := rdropWhile_prefix _ _
    rw [hstart.getElem hlen]
    exact dropWhile_eq_self_iff.mp (dropWhile_idempotent isWhitespace s) _
  unfold trim at hfirst ⊢
  rw [hfirst, rdropWhile_idempotent]

theorem clean_clean (raw : Text) : clean (clean raw) = clean raw := by
  unfold clean
  rw [trim_map_toLower, trim_trim, map_map]
  exact map_congr_left fun c _ => toLower_toLower c

/-! ## §4. The URL of a text. -/

theorem hostOf_eq_self {t : Text} (h : HostLike t) : hostOf t = t := by
  have hmem : ∀ c ∈ t, c ∉ ['/', '?', '#'] ∧ c ≠ '@' := by
    intro c hc
    have hc := h.1 c hc
    simp only [mem_cons, not_or, not_mem_nil, not_false_iff, and_true] at hc ⊢
    exact ⟨⟨hc.1, hc.2.1, hc.2.2.1⟩, hc.2.2.2⟩
  unfold hostOf
  rw [takeWhile_eq_self_iff.mpr (fun c hc => decide_eq_true (hmem c hc).1),
    rtakeWhile_eq_self_iff.mpr (fun c hc => decide_eq_true (hmem c hc).2),
    rdropWhile_eq_self_iff.mpr ?_]
  intro hne hdot
  exact h.2 (by rw [getLast?_eq_some_getLast hne, of_decide_eq_true hdot])

/-- A text in lower case without a blank at its end. -/
def Tidy (t : Text) : Prop :=
  (∀ c ∈ t, c.toLower = c) ∧ ∀ c, t.getLast? = some c → ¬isWhitespace c

/-- **ANY TIDY HOST IS THE NORMAL FORM OF A URL.** -/
theorem principal_url {t : Text} (htidy : Tidy t) (hhost : HostLike t) :
    principal ('x' :: ':' :: '/' :: '/' :: t) = .seller t := by
  have htrim : trim ('x' :: ':' :: '/' :: '/' :: t) = 'x' :: ':' :: '/' :: '/' :: t := by
    refine rdropWhile_eq_self_iff.mpr fun hne => ?_
    cases t with
    | nil => exact show ¬isWhitespace '/' by decide
    | cons c cs => exact htidy.2 _ (getLast?_eq_some_getLast (cons_ne_nil c cs))
  have hclean : clean ('x' :: ':' :: '/' :: '/' :: t) = 'x' :: ':' :: '/' :: '/' :: t := by
    unfold clean
    rw [htrim, map_cons, map_cons, map_cons, map_cons, map_congr_left htidy.1, map_id']
    rfl
  have hscheme : afterScheme ('x' :: ':' :: '/' :: '/' :: t) = some t := rfl
  unfold principal classify
  rw [hclean, hscheme]
  exact congrArg Principal.seller (hostOf_eq_self hhost)

/-! ## §5. What an entry admits. -/

theorem hostLike_of_hex {t : Text} (h : ∀ c ∈ t, isHexDigit c) : HostLike t := by
  have hchar : ∀ c ∈ t, c ∉ ['/', '?', '#', '@', '.'] := by
    intro c hc hmem
    have hhex := h c hc
    fin_cases hmem <;> exact absurd hhex (by decide)
  refine ⟨fun c hc hmem => hchar c hc (mem_append_left ['.'] hmem), fun hlast => ?_⟩
  exact hchar '.' (mem_of_getLast? hlast) (by decide)

theorem isHexDigit_not_blank {c : Char} (h : isHexDigit c) : ¬isWhitespace c := by
  rw [isHexDigit, Char.isDigit] at h
  simp only [Bool.or_eq_true, Bool.and_eq_true, decide_eq_true_eq] at h
  apply not_isWhitespace
  rcases h with (⟨hlo, hhi⟩ | ⟨hlo, hhi⟩) | ⟨hlo, hhi⟩
  · have hlo : 48 ≤ c.toNat := hlo
    have hhi : c.toNat ≤ 57 := hhi
    omega
  · have hlo : 97 ≤ c.toNat := hlo
    have hhi : c.toNat ≤ 102 := hhi
    omega
  · have hlo : 65 ≤ c.toNat := hlo
    have hhi : c.toNat ≤ 70 := hhi
    omega

theorem tidy_clean (raw : Text) : Tidy (clean raw) := by
  constructor
  · intro c hc
    obtain ⟨c', _, rfl⟩ := mem_map.mp hc
    exact toLower_toLower c'
  · intro c hc
    rw [clean, getLast?_map] at hc
    obtain ⟨c', hlast, rfl⟩ := Option.map_eq_some_iff.mp hc
    obtain ⟨hne, hc'⟩ := mem_getLast?_eq_getLast hlast
    rw [isWhitespace_toLower, hc']
    exact rdropWhile_last_not _ _ hne

/-- **THE NORMAL FORM OF A USER OR AN ADDRESS** is a word of hex digits in lower case. -/
theorem hex_text {raw : Text} (hurl : ∀ host, principal raw ≠ .seller host)
    (hother : principal raw ≠ .other (clean raw)) :
    (∀ c ∈ (principal raw).text, isHexDigit c) ∧ Tidy (principal raw).text := by
  suffices h : ∀ c ∈ (principal raw).text, isHexDigit c ∧ c.toLower = c from
    ⟨fun c hc => (h c hc).1, fun c hc => (h c hc).2,
      fun c hc => isHexDigit_not_blank (h c (mem_of_getLast? hc)).1⟩
  have hread := classify_readFrom (clean raw)
  unfold principal at hurl hother ⊢
  intro c hc
  cases hp : classify (clean raw) with
  | seller host => exact absurd hp (hurl host)
  | other t =>
    rw [hp] at hread
    exact absurd (hp.trans (congrArg Principal.other hread)) hother
  | shielded hex =>
    rw [hp] at hread hc
    exact ⟨all_eq_true.mp hread.1 c hc, (tidy_clean raw).1 c (hread.2.subset hc)⟩
  | user n =>
    rw [hp] at hc
    have hdigit : c.isDigit := isDigit_of_mem_toDigits (by decide) le_rfl hc
    refine ⟨by rw [isHexDigit, hdigit]; rfl, ?_⟩
    rw [Char.isDigit, Bool.and_eq_true, decide_eq_true_eq, decide_eq_true_eq] at hdigit
    have hhi : c.toNat ≤ 57 := hdigit.2
    exact Char.toNat_inj.mp ((toNat_toLower c).trans (if_neg (by omega)))

theorem not_mem_clean {t : Text} (h : '/' ∉ t) : '/' ∉ clean t := by
  intro hmem
  obtain ⟨c, hc, hlower⟩ := mem_map.mp hmem
  have hnat := toNat_toLower c
  rw [hlower] at hnat
  have hslash : '/' = c := by
    refine Char.toNat_inj.mp (hnat.trans (if_neg fun hupper => ?_))
    rw [if_pos hupper] at hnat
    have : (47 : Nat) = c.toNat + 32 := hnat
    omega
  rw [hslash] at h
  exact h ((dropWhile_suffix _).subset <| IsPrefix.mem hc <| rdropWhile_prefix _ _)

/-- **AN ENTRY ADMITS WHAT HAS ITS NORMAL FORM**, and `self`. -/
theorem recipientDenial_eq_none {raw raw' : Text} :
    recipientDenial (some (storedRecipients [raw])) [raw'] = none ↔
      raw' = SELF_RECIPIENT ∨ normalizeRecipient raw' = normalizeRecipient raw := by
  simp only [recipientDenial, storedRecipients, map_cons, map_nil, all_cons, all_nil, any_cons,
    any_nil, mem_singleton, Bool.and_true, Bool.or_false, decide_eq_true_eq]
  by_cases hself : raw' = SELF_RECIPIENT
  · simp [hself]
  · by_cases hsame : normalizeRecipient raw' = normalizeRecipient raw <;> simp [hself, hsame]

/-- **AN ENTRY THAT NO OTHER KIND OF RECIPIENT CAN TAKE**: no URL, user id or address, and no text
that a URL can have as its host. -/
def Unmistakable (raw : Text) : Prop := principal raw = .other (clean raw) ∧ ¬ HostLike (clean raw)

/-- **WHEN AN ENTRY ADMITS ONLY THE RECIPIENT THAT THE OWNER WROTE**, its normal form is its own and
that of nothing else: only for texts of none of the three other kinds that have a slash, `?`, `#`
or `@` or a final dot.  All other entries share their normal form with another principal. -/
theorem recipient_entry_admits_only_iff (raw : Text) :
    (normalizeRecipient (normalizeRecipient raw) = normalizeRecipient raw ∧
      (∀ raw', normalizeRecipient raw' = normalizeRecipient raw →
        principal raw' = principal raw) ∧
      ∀ raw', recipientDenial (some (storedRecipients [raw])) [raw'] = none →
        raw' = SELF_RECIPIENT ∨ principal raw' = principal raw) ↔
    Unmistakable raw := by
  constructor
  · rintro ⟨hidem, hsame, _⟩
    have hurl : ∀ host, principal raw ≠ .seller host := by
      intro host hp
      -- the host alone has the normal form of the URL, and is no URL
      have hread := classify_readFrom (clean raw)
      have hnorm : normalizeRecipient raw = host := by rw [normalizeRecipient_eq, hp]; rfl
      rw [hnorm] at hidem hsame
      rw [show classify (clean raw) = .seller host from hp] at hread
      have hslash : '/' ∉ host := fun hmem => hread.1 _ hmem (by decide)
      exact classify_ne_seller (not_mem_clean hslash) ((hsame host hidem).trans hp)
    -- a URL whose host is the normal form would have it, too
    have hclash : Tidy (principal raw).text → ¬ HostLike (principal raw).text := by
      intro htidy hhost
      have hseller := principal_url htidy hhost
      refine hurl _ (Eq.trans (Eq.symm (hsame _ ?_)) hseller)
      rw [normalizeRecipient_eq, hseller, normalizeRecipient_eq]
      rfl
    by_cases hother : principal raw = .other (clean raw)
    · rw [hother] at hclash
      exact ⟨hother, hclash (tidy_clean raw)⟩
    · obtain ⟨hhex, htidy⟩ := hex_text hurl hother
      exact absurd (hostLike_of_hex hhex) (hclash htidy)
  · rintro ⟨hother, hhost⟩
    have hnorm : normalizeRecipient raw = clean raw := by rw [normalizeRecipient_eq, hother]; rfl
    have hsame (raw' : Text) (heq : normalizeRecipient raw' = normalizeRecipient raw) :
        principal raw' = principal raw := by
      rw [hnorm, normalizeRecipient_eq] at heq
      have hread := classify_readFrom (clean raw')
      have hurl' : ∀ host, principal raw' ≠ .seller host := by
        intro host hp
        rw [show classify (clean raw') = .seller host from hp] at hread
        rw [hp] at heq
        exact hhost (heq ▸ hread)
      by_cases hother' : principal raw' = .other (clean raw')
      · rw [hother'] at heq
        rw [hother', hother, show clean raw' = clean raw from heq]
      · exact absurd (heq ▸ hostLike_of_hex (hex_text hurl' hother').1) hhost
    refine ⟨?_, hsame, fun raw' hadmit => ?_⟩
    · rw [hnorm, normalizeRecipient_eq, principal, clean_clean]
      exact congrArg Principal.text hother
    · exact (recipientDenial_eq_none.mp hadmit).imp_right (hsame raw')

/-- **THE ADDRESS `0x1234` PASSES THE ALLOWLIST OF THE USER `1234`**, and the host of a URL may be
another name of a user. -/
theorem normal_forms_collide :
    normalizeRecipient "0x1234".toList = normalizeRecipient "1234".toList ∧
    principal "0x1234".toList = .shielded "1234".toList ∧
    principal "1234".toList = .user 1234 ∧
    recipientDenial (some (storedRecipients ["1234".toList])) ["0x1234".toList] = none ∧
    normalizeRecipient "http://psy-0001".toList = "psy-0001".toList ∧
    normalizeRecipient "psy-0001".toList = "1".toList := by
  decide +kernel

end PsyNode.Mcp
