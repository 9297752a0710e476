import Agrarian.Spork.Sporks

/-!
# What the spork key signs

A spork message is signed as its id, value and signing time written one after
the other without a separator.  The ids of the known sporks have five digits
each, so the id can be told from the text; where the value ends and the time
begins often cannot, and then the signature of one message is good for
another.
-/

namespace Agrarian.Spork

open Agrarian.Lib

/-- The integers that an `int64_t` holds. -/
def fitsInt64 (x : Int) : Bool := -2 ^ 63 ≤ x && x < 2 ^ 63

/-- Value and time of the message are the only two numerals that their text
can be cut into. -/
def cutsOnce (spork : CSporkMessage) : Bool :=
  cutsOnlyAt fitsInt64 (decimal spork.nValue.toInt).length
    (decimal spork.nValue.toInt ++ decimal spork.nTimeSigned.toInt)

section Text

variable {spork spork' : CSporkMessage}

theorem fitsInt64_toInt (x : Int64) : fitsInt64 x.toInt := by
  have hlow := x.le_toInt
  have hhigh := x.toInt_lt
  simp only [fitsInt64, Bool.and_eq_true, decide_eq_true_eq]
  omega

theorem exists_int64 {x : Int} (h : fitsInt64 x) : ∃ y : Int64, y.toInt = x := by
  simp only [fitsInt64, Bool.and_eq_true, decide_eq_true_eq] at h
  exact ⟨Int64.ofInt x, Int64.toInt_ofInt_of_le (by omega) (by omega)⟩

theorem known_id_length {id : Int32} (h : getSporkNameByID id ≠ "Unknown") :
    (decimal id.toInt).length = 5 := by
  by_contra hlength
  have hne : ∀ known : Int32, (decimal known.toInt).length = 5 → id ≠ known := by
    intro known hknown heq
    rw [heq] at hlength
    exact hlength hknown
  apply h
  unfold getSporkNameByID
  -- every known id has five digits
  repeat rw [if_neg (hne _ (by decide))]

/-- The id, and the text of value and time, can be told from the whole. -/
theorem signedText_eq_iff (h : getSporkNameByID spork.nSporkID ≠ "Unknown")
    (h' : getSporkNameByID spork'.nSporkID ≠ "Unknown") :
    signedText spork' = signedText spork ↔
      spork'.nSporkID = spork.nSporkID ∧
        decimal spork'.nValue.toInt ++ decimal spork'.nTimeSigned.toInt =
          decimal spork.nValue.toInt ++ decimal spork.nTimeSigned.toInt := by
  unfold signedText
  rw [List.append_assoc, List.append_assoc]
  constructor
  · intro heq
    obtain ⟨hid, hrest⟩ := List.append_inj heq
      ((known_id_length h').trans (known_id_length h).symm)
    exact ⟨Int32.toInt_inj.mp (decimal_injective hid), hrest⟩
  · rintro ⟨hid, hrest⟩
    rw [hid, hrest]

end Text

section Signatures

variable (params : SporkParams)
  (verifyMessage : String → List UInt8 → List Char → Bool)

/-- The message passes all checks of `ProcessSpork`. -/
def accepts (world : World) (s : SporkState) (spork : CSporkMessage) : Bool :=
  !world.fLiteMode && world.fTip && isNews s spork &&
    validlySigned params verifyMessage world spork

/-- The signature of the message verifies for no other message with a known
id, and `ProcessSpork` accepts no other message with it. -/
def SignatureBinds (spork : CSporkMessage) : Prop :=
  (∀ spork', getSporkNameByID spork'.nSporkID ≠ "Unknown" →
    spork'.vchSig = spork.vchSig → ∀ world fCheckSigner,
    checkSignature params verifyMessage world spork' fCheckSigner →
      spork' = spork) ∧
  ∀ world s spork', spork'.vchSig = spork.vchSig →
    accepts params verifyMessage world s spork' → spork' = spork

variable {params} {verifyMessage} {spork spork' : CSporkMessage}

/-- What passes is signed by one of the two keys. -/
theorem exists_key_of_checkSignature {world : World} {fCheckSigner : Bool}
    (h : checkSignature params verifyMessage world spork fCheckSigner) :
    ∃ key, verifyMessage key spork.vchSig (signedText spork) := by
  unfold checkSignature at h
  simp only at h
  split at h
  · cases h
  · split at h
    · exact ⟨params.sporkKeyOld, h⟩
    · exact ⟨params.sporkKey, h⟩

theorem checkSignature_of_newKey {world : World} {fCheckSigner : Bool}
    (h : verifyMessage params.sporkKey spork.vchSig (signedText spork)) :
    checkSignature params verifyMessage world spork fCheckSigner := by
  simp [checkSignature, h]

theorem eq_of_signedText_eq (hcut : cutsOnce spork)
    (hknown : getSporkNameByID spork.nSporkID ≠ "Unknown")
    (hknown' : getSporkNameByID spork'.nSporkID ≠ "Unknown")
    (hsig : spork'.vchSig = spork.vchSig)
    (htext : signedText spork' = signedText spork) : spork' = spork := by
  obtain ⟨hid, hrest⟩ := (signedText_eq_iff hknown hknown').mp htext
  obtain ⟨hvalue, htime⟩ := eq_of_cutsOnlyAt hcut (fitsInt64_toInt _)
    (fitsInt64_toInt _) hrest
  obtain ⟨nSporkID, nValue, nTimeSigned, vchSig⟩ := spork
  obtain ⟨nSporkID', nValue', nTimeSigned', vchSig'⟩ := spork'
  simp only [Int64.toInt_inj] at hid hvalue htime hsig
  rw [hid, hvalue, htime, hsig]

/-- **A signature is good for its own message only** exactly when value and
time have one cut.  The signature is one of the spork key on the message, and
verifies for no other text. -/
theorem signature_binds_iff
    (hknown : getSporkNameByID spork.nSporkID ≠ "Unknown")
    (hsigned : verifyMessage params.sporkKey spork.vchSig (signedText spork))
    (hbinds : ∀ key text, verifyMessage key spork.vchSig text →
      text = signedText spork) :
    SignatureBinds params verifyMessage spork ↔ cutsOnce spork := by
  constructor
  · rintro ⟨hpair, -⟩
    apply cutsOnlyAt_of_eq
    intro x y hx hy heq
    obtain ⟨nValue, rfl⟩ := exists_int64 hx
    obtain ⟨nTimeSigned, rfl⟩ := exists_int64 hy
    -- the other cut is a message with the same text
    have hother : getSporkNameByID ({ spork with nValue, nTimeSigned } :
        CSporkMessage).nSporkID ≠ "Unknown" := hknown
    have htext : signedText { spork with nValue, nTimeSigned } =
        signedText spork :=
      (signedText_eq_iff hknown hother).mpr ⟨rfl, heq⟩
    have hsame := hpair { spork with nValue, nTimeSigned } hother rfl {} false
      (checkSignature_of_newKey (by rw [htext]; exact hsigned))
    exact congrArg (fun spork => spork.nValue.toInt) hsame
  · intro hcut
    have hpair : ∀ spork', getSporkNameByID spork'.nSporkID ≠ "Unknown" →
        spork'.vchSig = spork.vchSig → ∀ world fCheckSigner,
        checkSignature params verifyMessage world spork' fCheckSigner →
          spork' = spork := by
      intro spork' hknown' hsig world fCheckSigner hcheck
      obtain ⟨key, hverified⟩ := exists_key_of_checkSignature hcheck
      rw [hsig] at hverified
      exact eq_of_signedText_eq hcut hknown hknown' hsig
        (hbinds key _ hverified)
    refine ⟨hpair, ?_⟩
    intro world s spork' hsig haccepts
    simp only [accepts, Bool.and_eq_true, validlySigned] at haccepts
    obtain ⟨⟨-, hnews⟩, -, hcheck⟩ := haccepts
    exact hpair spork' (isNews_eq_true.mp hnews).1 hsig world false hcheck

end Signatures

section Example

/-- The signature `[1]` is the spork key's, and on one text only. -/
def signs (text : List Char) (key : String) (vchSig : List UInt8)
    (signed : List Char) : Bool :=
  key == mainSporkParams.sporkKey && vchSig == [1] && signed == text

/-- Payments are enforced from 2001 on, signed in 2020. -/
def payOnSigned : CSporkMessage where
  nSporkID := SPORK_8_MASTERNODE_PAYMENT_ENFORCEMENT
  nValue := 1
  nTimeSigned := 1500000000
  vchSig := [1]

theorem payOnSigned_signature_binds_iff :
    SignatureBinds mainSporkParams (signs (signedText payOnSigned))
      payOnSigned ↔ cutsOnce payOnSigned :=
  signature_binds_iff (by decide) (by decide +kernel) fun key text h => by
    simp only [signs, Bool.and_eq_true, beq_iff_eq] at h
    exact h.2

/-- `10008`, `1`, `1500000000` and `10008`, `11`, `500000000` are the same
text. -/
theorem spork_signature_reused :
    ¬ SignatureBinds mainSporkParams (signs (signedText payOnSigned))
      payOnSigned := by
  rintro ⟨-, haccepts⟩
  have hsame := haccepts {} {}
    { payOnSigned with nValue := 11, nTimeSigned := 500000000 } rfl (by decide +kernel)
  exact absurd hsame (by decide)

end Example

end Agrarian.Spork
