import Agrarian.Lib.Canonical
import Agrarian.Serialize.Compressor

/-!
# Compressed scripts are a code

Every script whose length and the number of special scripts can be added in
an `unsigned int` is read back from what the compressor writes, so that no
two such scripts share an encoding.  Beyond that the size wraps around, and
the script is taken for a special one.
-/

namespace Agrarian.Serialize

open Agrarian.Lib.ByteCodec
open CScript

variable (ops : PubKeyOps)

/-- **Scripts are read back**, with exactly the bytes written taken off every
stream, and different scripts have different encodings. -/
theorem script_codec (hops : ops.Lawful) :
    (∀ (script : CScript) (rest : List UInt8),
      script.length + nSpecialScripts < 2 ^ 32 →
      (readScript ops).run (writeScript ops script ++ rest) =
        some (script, rest)) ∧
    (∀ script script' : CScript,
      script.length + nSpecialScripts < 2 ^ 32 →
      script'.length + nSpecialScripts < 2 ^ 32 →
      script ≠ script' → writeScript ops script ≠ writeScript ops script') := by
  refine ⟨fun script rest hlen => reads_script ops hops hlen rest, ?_⟩
  intro script script' hlen hlen' hne heq
  have hread := reads_script ops hops hlen
  rw [heq] at hread
  exact hne (hread.injective (reads_script ops hops hlen'))

/-- A library that knows one public key. -/
def knowsOnly (pubkey : List UInt8) : PubKeyOps where
  isFullyValid key := key = pubkey
  decompress key := if key = compressedPubKey pubkey then some pubkey else none

theorem knowsOnly_lawful (pubkey : List UInt8) : (knowsOnly pubkey).Lawful := by
  intro key _ _ hvalid
  obtain rfl : key = pubkey := of_decide_eq_true hvalid
  exact if_pos rfl

/-- The generator of the curve as an uncompressed public key. -/
def generator : List UInt8 :=
  [0x04,
    0x79, 0xBE, 0x66, 0x7E, 0xF9, 0xDC, 0xBB, 0xAC,
    0x55, 0xA0, 0x62, 0x95, 0xCE, 0x87, 0x0B, 0x07,
    0x02, 0x9B, 0xFC, 0xDB, 0x2D, 0xCE, 0x28, 0xD9,
    0x59, 0xF2, 0x81, 0x5B, 0x16, 0xF8, 0x17, 0x98,
    0x48, 0x3A, 0xDA, 0x77, 0x26, 0xA3, 0xC4, 0x65,
    0x5D, 0xA4, 0xFB, 0xFC, 0x0E, 0x11, 0x08, 0xA8,
    0xFD, 0x17, 0xB4, 0x48, 0xA6, 0x85, 0x54, 0x19,
    0x9C, 0x47, 0xD0, 0x8F, 0xFB, 0x10, 0xD4, 0xB8]

/-- A payment to the generator is stored in 33 bytes and read back. -/
theorem script_codec_generator :
    writeScript (knowsOnly generator) ([65] ++ generator ++ [OP_CHECKSIG]) =
        0x04 :: (generator.drop 1).take 32 ∧
      (readScript (knowsOnly generator)).run
          (writeScript (knowsOnly generator)
            ([65] ++ generator ++ [OP_CHECKSIG]) ++ [0xFF]) =
        some ([65] ++ generator ++ [OP_CHECKSIG], [0xFF]) :=
  ⟨by decide +kernel,
    (script_codec (knowsOnly generator) (knowsOnly_lawful generator)).1 _ _
      (by decide +kernel)⟩

/-! ## Scripts that are too long -/

/-- Only scripts of four lengths are special. -/
theorem compressScript_of_length {script : CScript}
    (h : 67 < script.length) : compressScript ops script = none := by
  have hkey : isToKeyID script = none :=
    if_neg (fun hshape => by omega)
  have hid : isToScriptID script = none :=
    if_neg (fun hshape => by omega)
  have hpub : isToPubKey ops script = none := by
    rw [isToPubKey, if_neg (fun hshape => by omega),
      if_neg (fun hshape => by omega)]
  rw [compressScript, hkey, hid, hpub]

/-- The size of a script of `2 ^ 32 - 6` bytes wraps around to zero, the code
of a payment to a key hash. -/
theorem writeScript_wraps {script : CScript}
    (h : script.length + nSpecialScripts = 2 ^ 32) :
    writeScript ops script = 0x00 :: script := by
  have hsix : script.length + 6 = 2 ^ 32 := h
  rw [writeScript, compressScript_of_length ops (by omega)]
  simp only [h, Nat.mod_self]
  rw [writeVarInt_of_le (by decide)]
  rfl

/-- The first twenty bytes of such a script are read as a key hash. -/
theorem script_codec_wraps :
    ¬ ∀ (script : CScript) (rest : List UInt8),
      (readScript (knowsOnly generator)).run
          (writeScript (knowsOnly generator) script ++ rest) =
        some (script, rest) := by
  intro hall
  obtain ⟨script, hlen⟩ : ∃ script : CScript,
      script.length + nSpecialScripts = 2 ^ 32 :=
    ⟨List.replicate (2 ^ 32 - 6) 0, by rw [List.length_replicate]; decide⟩
  have hsix : script.length + 6 = 2 ^ 32 := hlen
  have hsplit : writeScript (knowsOnly generator) script =
      0x00 :: script.take 20 ++ script.drop 20 := by
    rw [writeScript_wraps _ hlen, List.cons_append, List.take_append_drop]
  have htake : (script.take 20).length = getSpecialSize 0 := by
    rw [List.length_take]
    show min 20 script.length = 20
    omega
  have hspecial : Reads (readScript (knowsOnly generator))
      (0x00 :: script.take 20)
      ([OP_DUP, OP_HASH160, 20] ++ script.take 20 ++
        [OP_EQUALVERIFY, OP_CHECKSIG]) :=
    reads_special (knowsOnly generator) (by decide) htake rfl
  have hrun := hall script []
  rw [hsplit, List.append_nil] at hrun
  have hread := hspecial (script.drop 20)
  rw [hrun] at hread
  have hscript := congrArg List.length
    (Prod.mk.inj (Option.some.inj hread)).1
  simp only [List.length_append, List.length_cons, List.length_nil,
    List.length_take] at hscript
  omega

end Agrarian.Serialize
