import Agrarian.Lib.Framing
import Agrarian.Serialize.Stream

/-!
# Receiving messages

`CNode::ReceiveMsgBytes` takes the bytes of a peer piece by piece and puts them
into the last message of `vRecvMsg`, first into its header and then into its
payload.  `ProcessMessages` takes complete messages off the front.

A write that goes outside a buffer has no result here, and neither has a loop
that does not end after as many iterations as there are bytes.  A chunk is
shorter than `2 ^ 32` bytes, because `nBytes` is an `unsigned int`.
-/

namespace Agrarian.Net

open Agrarian.Lib Agrarian.Lib.ByteCodec Agrarian.Serialize

def MAX_PROTOCOL_MESSAGE_LENGTH : UInt32 := 2 * 1024 * 1024

structure CMessageHeader where
  pchMessageStart : List UInt8
  pchCommand : List UInt8
  nMessageSize : UInt32
  nChecksum : UInt32
  deriving DecidableEq

/-- `CMessageHeader()`; the first bytes depend on the network. -/
def CMessageHeader.new (messageStart : List UInt8) : CMessageHeader where
  pchMessageStart := messageStart
  pchCommand := List.replicate 12 0
  nMessageSize := 0xFFFFFFFF
  nChecksum := 0

def readMessageHeader : Reader CMessageHeader := do
  let pchMessageStart ← readBytes 4
  let pchCommand ← readBytes 12
  let nMessageSize ← readNatLE 4
  let nChecksum ← readNatLE 4
  pure ⟨pchMessageStart, pchCommand, UInt32.ofNat nMessageSize, UInt32.ofNat nChecksum⟩

/-- `memcpy(&buf[pos], ...)`; `none` outside the buffer. -/
def memcpyAt (buf : List UInt8) (pos : Nat) (data : List UInt8) : Option (List UInt8) :=
  if pos < buf.length ∧ pos + data.length ≤ buf.length then
    some (buf.take pos ++ data ++ buf.drop (pos + data.length))
  else none

def resize (buf : List UInt8) (n : Nat) : List UInt8 :=
  buf.take n ++ List.replicate (n - buf.length) 0

structure CNetMessage where
  /-- Parsing header (false) or data (true). -/
  in_data : Bool
  /-- Partially received header. -/
  hdrbuf : List UInt8
  /-- Complete header. -/
  hdr : CMessageHeader
  nHdrPos : UInt32
  /-- Received message data. -/
  vRecv : List UInt8
  nDataPos : UInt32
  deriving DecidableEq

namespace CNetMessage

def new (messageStart : List UInt8) : CNetMessage where
  in_data := false
  hdrbuf := resize [] 24
  hdr := CMessageHeader.new messageStart
  nHdrPos := 0
  vRecv := []
  nDataPos := 0

def complete (msg : CNetMessage) : Bool :=
  if !msg.in_data then false else msg.hdr.nMessageSize == msg.nDataPos

/-- The number of bytes that were handled, `none` for `-1`. -/
def readHeader (msg : CNetMessage) (pch : List UInt8) :
    Option (Option UInt32 × CNetMessage) :=
  let nBytes := UInt32.ofNat pch.length
  -- copy data to temporary parsing buffer
  let nRemaining := 24 - msg.nHdrPos
  let nCopy := min nRemaining nBytes
  match memcpyAt msg.hdrbuf msg.nHdrPos.toNat (pch.take nCopy.toNat) with
  | none => none
  | some hdrbuf =>
      let msg := { msg with hdrbuf, nHdrPos := msg.nHdrPos + nCopy }
      -- if header incomplete, exit
      if msg.nHdrPos < 24 then some (some nCopy, msg)
      else
        match readMessageHeader.run msg.hdrbuf with
        | none => some (none, msg)
        | some (hdr, hdrbuf) =>
            let msg := { msg with hdr, hdrbuf }
            -- reject messages larger than MAX_SIZE
            if MAX_SIZE < hdr.nMessageSize.toNat then some (none, msg)
            -- switch state to reading message data
            else some (some nCopy, { msg with in_data := true })

def readData (msg : CNetMessage) (pch : List UInt8) :
    Option (Option UInt32 × CNetMessage) :=
  let nBytes := UInt32.ofNat pch.length
  let nRemaining := msg.hdr.nMessageSize - msg.nDataPos
  let nCopy := min nRemaining nBytes
  let vRecv :=
    if msg.vRecv.length < (msg.nDataPos + nCopy).toNat then
      -- Allocate up to 256 KiB ahead, but never more than the total message size.
      resize msg.vRecv
        (min msg.hdr.nMessageSize (msg.nDataPos + nCopy + 256 * 1024)).toNat
    else msg.vRecv
  match memcpyAt vRecv msg.nDataPos.toNat (pch.take nCopy.toNat) with
  | none => none
  | some vRecv => some (some nCopy, { msg with vRecv, nDataPos := msg.nDataPos + nCopy })

end CNetMessage

section Receive

variable (messageStart : List UInt8)

/-- The current incomplete message, or a new one, behind the others. -/
def currentMessage (vRecvMsg : List CNetMessage) : List CNetMessage × CNetMessage :=
  match vRecvMsg.getLast? with
  | none => (vRecvMsg, CNetMessage.new messageStart)
  | some msg =>
      if msg.complete then (vRecvMsg, CNetMessage.new messageStart)
      else (vRecvMsg.dropLast, msg)

/-- An iteration of the loop: the messages, and the number of bytes handled, or
`none` where the function returns `false`. -/
def receiveStep (vRecvMsg : List CNetMessage) (pch : List UInt8) :
    Option (List CNetMessage × Option UInt32) :=
  let (others, msg) := currentMessage messageStart vRecvMsg
  -- absorb network data
  match if !msg.in_data then msg.readHeader pch else msg.readData pch with
  | none => none
  | some (none, msg) => some (others ++ [msg], none)
  | some (some handled, msg) =>
      if msg.in_data ∧ MAX_PROTOCOL_MESSAGE_LENGTH < msg.hdr.nMessageSize then
        some (others ++ [msg], none)
      else some (others ++ [msg], some handled)

/-- `ReceiveMsgBytes`, with a bound on the iterations of its loop. -/
def receiveMsgBytes :
    Nat → List CNetMessage → List UInt8 → Option (List CNetMessage × Bool)
  | _, vRecvMsg, [] => some (vRecvMsg, true)
  | 0, _, _ :: _ => none
  | iterations + 1, vRecvMsg, b :: bs =>
      match receiveStep messageStart vRecvMsg (b :: bs) with
      | none => none
      | some (vRecvMsg, none) => some (vRecvMsg, false)
      | some (vRecvMsg, some handled) =>
          receiveMsgBytes iterations vRecvMsg ((b :: bs).drop handled.toNat)

end Receive

/-- At most `count` messages from the front, up to an incomplete one, and those
that stay. -/
def processMessages : Nat → List CNetMessage → List CNetMessage × List CNetMessage
  | 0, vRecvMsg => ([], vRecvMsg)
  | _ + 1, [] => ([], [])
  | count + 1, msg :: rest =>
      if !msg.complete then ([], msg :: rest)
      else
        let (taken, left) := processMessages count rest
        (msg :: taken, left)

/-- What is passed to `ReceiveMsgBytes` at a time. -/
structure Chunk where
  bytes : List UInt8
  size_lt : bytes.length < 2 ^ 32

inductive Event
  | receive (pch : Chunk)
  | process (count : Nat)

/-- A peer, with the messages that were taken off the front.  When bytes are
rejected the peer is disconnected. -/
structure Peer where
  vRecvMsg : List CNetMessage := []
  taken : List CNetMessage := []
  rejected : Bool := false

namespace Peer

/-- The complete messages that came so far. -/
def messages (peer : Peer) : List CNetMessage :=
  peer.taken ++ peer.vRecvMsg.filter CNetMessage.complete

def step (messageStart : List UInt8) (peer : Peer) : Event → Option Peer
  | .receive pch =>
      if peer.rejected then some peer
      else
        match receiveMsgBytes messageStart pch.bytes.length peer.vRecvMsg pch.bytes with
        | none => none
        | some (vRecvMsg, ok) => some { peer with vRecvMsg, rejected := !ok }
  | .process count =>
      if peer.rejected then some peer
      else
        let (taken, left) := processMessages count peer.vRecvMsg
        some { peer with vRecvMsg := left, taken := peer.taken ++ taken }

def run (messageStart : List UInt8) : Peer → List Event → Option Peer
  | peer, [] => some peer
  | peer, event :: events =>
      match peer.step messageStart event with
      | none => none
      | some peer => run messageStart peer events

end Peer

/-- The bytes that a peer sent. -/
def streamOf : List Event → List UInt8
  | [] => []
  | .receive pch :: events => pch.bytes ++ streamOf events
  | .process _ :: events => streamOf events

/-! ## Buffers -/

theorem resize_of_le {buf : List UInt8} {n : Nat} (h : buf.length ≤ n) :
    resize buf n = buf ++ List.replicate (n - buf.length) 0 := by
  unfold resize
  rw [List.take_of_length_le h]

/-- Bytes are written over the first of those that follow. -/
theorem memcpyAt_append {filled ahead data : List UInt8} (hne : ahead ≠ [])
    (hlength : data.length ≤ ahead.length) :
    memcpyAt (filled ++ ahead) filled.length data =
      some (filled ++ data ++ ahead.drop data.length) := by
  have hpos : 0 < ahead.length := List.length_pos_iff.mpr hne
  unfold memcpyAt
  rw [if_pos (by rw [List.length_append]; omega), List.take_left, List.drop_append,
    List.drop_eq_nil_of_le (by omega), List.nil_append, Nat.add_sub_cancel_left]

theorem toNat_ofNat {n : Nat} (h : n < 2 ^ 32) : (UInt32.ofNat n).toNat = n :=
  UInt32.toNat_ofNat_of_lt' h

theorem toNat_min (a b : UInt32) : (min a b).toNat = min a.toNat b.toNat := by
  show (if a ≤ b then a else b).toNat = _
  by_cases hle : a ≤ b
  · rw [if_pos hle]
    rw [UInt32.le_iff_toNat_le] at hle
    omega
  · rw [if_neg hle]
    rw [UInt32.le_iff_toNat_le] at hle
    omega

theorem take_piece {pch : List UInt8} {n : Nat} (hpos : 0 < n) (hn : n ≤ pch.length) :
    (pch.take n).length = n ∧ pch.take n ≠ [] := by
  have hlength : (pch.take n).length = n := by
    rw [List.length_take]
    omega
  refine ⟨hlength, fun hnil => ?_⟩
  rw [hnil, List.length_nil] at hlength
  omega

/-! ## Headers -/

/-- What the bytes of a header mean. -/
def decodeHeader (bs : List UInt8) : CMessageHeader where
  pchMessageStart := bs.take 4
  pchCommand := (bs.drop 4).take 12
  nMessageSize := UInt32.ofNat (ofLE ((bs.drop 16).take 4))
  nChecksum := UInt32.ofNat (ofLE (bs.drop 20))

/-- The length of a payload, unless the peer is rejected for it. -/
def payloadSize (header : List UInt8) : Option Nat :=
  if MAX_PROTOCOL_MESSAGE_LENGTH < (decodeHeader header).nMessageSize then none
  else some (decodeHeader header).nMessageSize.toNat

theorem payloadSize_eq {header : List UInt8} {size : UInt32}
    (hdecode : (decodeHeader header).nMessageSize = size)
    (hsize : size ≤ MAX_PROTOCOL_MESSAGE_LENGTH) : payloadSize header = some size.toNat := by
  unfold payloadSize
  rw [hdecode, if_neg (UInt32.not_lt.mpr hsize)]

theorem payloadSize_eq_none {header : List UInt8}
    (hbig : MAX_PROTOCOL_MESSAGE_LENGTH < (decodeHeader header).nMessageSize) :
    payloadSize header = none := if_pos hbig

theorem reads_ofLE {bs : List UInt8} {width : Nat} (h : bs.length = width) :
    Reads (readNatLE width) bs (ofLE bs) := (reads_bytes_of_length h).map ofLE

theorem reads_messageHeader {bs : List UInt8} (h : bs.length = 24) :
    Reads readMessageHeader bs (decodeHeader bs) := by
  have hfour : (bs.take 4).length = 4 := by rw [List.length_take]; omega
  have htwelve : ((bs.drop 4).take 12).length = 12 := by
    rw [List.length_take, List.length_drop]
    omega
  have hsize : ((bs.drop 16).take 4).length = 4 := by
    rw [List.length_take, List.length_drop]
    omega
  have hchecksum : (bs.drop 20).length = 4 := by rw [List.length_drop]; omega
  have hsplit : bs = bs.take 4 ++ ((bs.drop 4).take 12 ++
      ((bs.drop 16).take 4 ++ bs.drop 20)) := by
    have hlast : (bs.drop 16).take 4 ++ bs.drop 20 = bs.drop 16 := by
      rw [show bs.drop 20 = (bs.drop 16).drop 4 by rw [List.drop_drop],
        List.take_append_drop]
    have hmiddle : (bs.drop 4).take 12 ++ bs.drop 16 = bs.drop 4 := by
      rw [show bs.drop 16 = (bs.drop 4).drop 12 by rw [List.drop_drop],
        List.take_append_drop]
    rw [hlast, hmiddle, List.take_append_drop]
  rw [congrArg (Reads readMessageHeader) hsplit]
  refine (reads_bytes_of_length hfour).bind ?_
  refine (reads_bytes_of_length htwelve).bind ?_
  refine (reads_ofLE hsize).bind ?_
  exact (reads_ofLE hchecksum).bind_pure (reads_pure _)

theorem readMessageHeader_run {bs : List UInt8} (h : bs.length = 24) :
    readMessageHeader.run bs = some (decodeHeader bs, []) := by
  have hread := reads_messageHeader h []
  rw [List.append_nil] at hread
  exact hread

/-! ## The message of some bytes -/

/-- The message after the first bytes of a header. -/
def headerOf (messageStart cur : List UInt8) : CNetMessage :=
  { CNetMessage.new messageStart with
    hdrbuf := cur ++ List.replicate (24 - cur.length) 0
    nHdrPos := UInt32.ofNat cur.length }

/-- The message after the header and some bytes of the payload. -/
def dataOf (cur ahead : List UInt8) : CNetMessage where
  in_data := true
  hdrbuf := []
  hdr := decodeHeader (cur.take 24)
  nHdrPos := 24
  vRecv := cur.drop 24 ++ ahead
  nDataPos := UInt32.ofNat (cur.length - 24)

/-- The message of a frame. -/
def messageOf (frame : List UInt8) : CNetMessage :=
  { dataOf frame [] with nDataPos := (decodeHeader (frame.take 24)).nMessageSize }

theorem messageOf_complete (frame : List UInt8) : (messageOf frame).complete = true :=
  beq_self_eq_true _

/-- The bytes that `readHeader` copies. -/
theorem toNat_nCopy_header {cur pch : List UInt8} (hcur : cur.length < 24)
    (hlength : pch.length < 2 ^ 32) :
    (min (24 - UInt32.ofNat cur.length) (UInt32.ofNat pch.length)).toNat =
      min (24 - cur.length) pch.length := by
  have hpos : (UInt32.ofNat cur.length).toNat = cur.length :=
    toNat_ofNat (by omega)
  have hremaining : (24 - UInt32.ofNat cur.length).toNat = 24 - cur.length := by
    rw [UInt32.toNat_sub_of_le _ _ (by rw [UInt32.le_iff_toNat_le, hpos]; exact hcur.le), hpos]
    rfl
  rw [toNat_min, toNat_ofNat hlength, hremaining]

/-- The copy of `readHeader`. -/
theorem memcpyAt_header {cur data : List UInt8} (hcur : cur.length < 24)
    (hdata : cur.length + data.length ≤ 24) :
    memcpyAt (cur ++ List.replicate (24 - cur.length) 0) (UInt32.ofNat cur.length).toNat data =
      some (cur ++ data ++ List.replicate (24 - (cur ++ data).length) 0) := by
  have hpos : (UInt32.ofNat cur.length).toNat = cur.length :=
    toNat_ofNat (by omega)
  have hahead : List.replicate (24 - cur.length) (0 : UInt8) ≠ [] := by
    intro hnil
    have hzero := congrArg List.length hnil
    rw [List.length_replicate, List.length_nil] at hzero
    omega
  rw [hpos, memcpyAt_append hahead (by rw [List.length_replicate]; omega),
    List.drop_replicate, List.length_append, Nat.sub_sub]

theorem nHdrPos_add {cur : List UInt8} {nCopy : UInt32} {n : Nat}
    (hcopy : nCopy.toNat = n) (hn : cur.length + n < 2 ^ 32) :
    UInt32.ofNat cur.length + nCopy = UInt32.ofNat (cur.length + n) := by
  apply UInt32.toNat_inj.mp
  rw [UInt32.toNat_add, hcopy, toNat_ofNat (by omega),
    toNat_ofNat hn, Nat.mod_eq_of_lt hn]

/-- A header that stays incomplete. -/
theorem readHeader_short {messageStart cur pch : List UInt8}
    (hshort : cur.length + pch.length < 24) :
    (headerOf messageStart cur).readHeader pch =
      some (some (UInt32.ofNat pch.length), headerOf messageStart (cur ++ pch)) := by
  have hcopy := @toNat_nCopy_header cur pch (by omega) (by omega)
  have hmin : min (24 - UInt32.ofNat cur.length) (UInt32.ofNat pch.length) =
      UInt32.ofNat pch.length := by
    apply UInt32.toNat_inj.mp
    rw [hcopy, toNat_ofNat (by omega)]
    omega
  have hpos : UInt32.ofNat cur.length + UInt32.ofNat pch.length =
      UInt32.ofNat (cur ++ pch).length := by
    rw [List.length_append]
    exact nHdrPos_add (toNat_ofNat (by omega)) (by omega)
  have hlt : UInt32.ofNat (cur ++ pch).length < 24 := by
    rw [UInt32.lt_iff_toNat_lt, toNat_ofNat (by rw [List.length_append]; omega),
      List.length_append]
    exact hshort
  unfold CNetMessage.readHeader headerOf
  simp only [hmin]
  rw [toNat_ofNat (show pch.length < 2 ^ 32 by omega), List.take_length,
    memcpyAt_header (by omega) (by omega)]
  simp only [hpos, hlt, if_true]

/-- The message whose header was read. -/
def headerDone (messageStart header : List UInt8) : CNetMessage :=
  { CNetMessage.new messageStart with
    hdrbuf := []
    hdr := decodeHeader header
    nHdrPos := 24 }

/-- A header that becomes complete. -/
theorem readHeader_full {messageStart cur pch : List UInt8} (hcur : cur.length < 24)
    (hlength : pch.length < 2 ^ 32) (hfull : 24 ≤ cur.length + pch.length)
    {header : List UInt8} (hheader : header = cur ++ pch.take (24 - cur.length)) :
    (headerOf messageStart cur).readHeader pch =
      if MAX_SIZE < (decodeHeader header).nMessageSize.toNat then
        some (none, headerDone messageStart header)
      else some (some (UInt32.ofNat (24 - cur.length)), dataOf header []) := by
  have hcopy := toNat_nCopy_header hcur hlength
  rw [Nat.min_eq_left (by omega)] at hcopy
  have hmin : min (24 - UInt32.ofNat cur.length) (UInt32.ofNat pch.length) =
      UInt32.ofNat (24 - cur.length) := by
    apply UInt32.toNat_inj.mp
    rw [hcopy, toNat_ofNat (by omega)]
  have hsize : header.length = 24 := by
    rw [hheader, List.length_append, List.length_take]
    omega
  have hpos : UInt32.ofNat cur.length + UInt32.ofNat (24 - cur.length) = 24 := by
    rw [nHdrPos_add (toNat_ofNat (by omega)) (by omega), Nat.add_sub_of_le hcur.le]
    rfl
  have htake : header.take 24 = header := List.take_of_length_le hsize.le
  have hdrop : header.drop 24 = [] := List.drop_eq_nil_of_le hsize.le
  have hbuffer : header ++ List.replicate (24 - header.length) 0 = header := by
    rw [hsize]
    exact List.append_nil _
  unfold CNetMessage.readHeader headerOf
  simp only [hmin]
  rw [toNat_ofNat (show 24 - cur.length < 2 ^ 32 by omega),
    memcpyAt_header hcur (by rw [List.length_take]; omega), ← hheader, hbuffer]
  simp only [hpos, readMessageHeader_run hsize]
  by_cases hbig : MAX_SIZE < (decodeHeader header).nMessageSize.toNat
  · rw [if_pos hbig, if_pos hbig]
    rfl
  · rw [if_neg hbig, if_neg hbig]
    unfold dataOf
    rw [htake, hdrop, hsize]
    rfl

/-- The buffer of `readData` before the copy: room for it, and never more than
the payload. -/
theorem readData_buffer {payload ahead : List UInt8} {size nDataPos nCopy : UInt32}
    (hsize : size ≤ MAX_PROTOCOL_MESSAGE_LENGTH) (hpos : nDataPos.toNat = payload.length)
    (hcopy : payload.length + nCopy.toNat ≤ size.toNat)
    (hahead : payload.length + ahead.length ≤ size.toNat) :
    ∃ ahead', (if (payload ++ ahead).length < (nDataPos + nCopy).toNat then
          resize (payload ++ ahead) (min size (nDataPos + nCopy + 256 * 1024)).toNat
        else payload ++ ahead) = payload ++ ahead' ∧
      nCopy.toNat ≤ ahead'.length ∧ payload.length + ahead'.length ≤ size.toNat := by
  have hmax : size.toNat ≤ 2 * 1024 * 1024 := UInt32.le_iff_toNat_le.mp hsize
  have hsum : (nDataPos + nCopy).toNat = payload.length + nCopy.toNat := by
    rw [UInt32.toNat_add, hpos]
    omega
  have hroom : (min size (nDataPos + nCopy + 256 * 1024)).toNat =
      min size.toNat (payload.length + nCopy.toNat + 262144) := by
    have hadd : (nDataPos + nCopy + 256 * 1024).toNat =
        (payload.length + nCopy.toNat + 262144) % 2 ^ 32 := by
      rw [UInt32.toNat_add, hsum]
      rfl
    rw [toNat_min, hadd, Nat.mod_eq_of_lt (by omega)]
  by_cases hgrow : (payload ++ ahead).length < (nDataPos + nCopy).toNat
  · rw [if_pos hgrow, hroom]
    rw [hsum, List.length_append] at hgrow
    refine ⟨ahead ++ List.replicate (min size.toNat (payload.length + nCopy.toNat + 262144) -
      (payload ++ ahead).length) 0, ?_, ?_, ?_⟩
    · rw [resize_of_le (by rw [List.length_append]; omega), List.append_assoc]
    · rw [List.length_append, List.length_replicate, List.length_append]
      omega
    · rw [List.length_append, List.length_replicate, List.length_append]
      omega
  · rw [if_neg hgrow]
    rw [hsum, List.length_append] at hgrow
    exact ⟨ahead, rfl, by omega, hahead⟩

/-- A payload takes what it still lacks. -/
theorem readData_spec {cur pch ahead : List UInt8} {size : UInt32}
    (hdecode : (decodeHeader (cur.take 24)).nMessageSize = size)
    (hsize : size ≤ MAX_PROTOCOL_MESSAGE_LENGTH) (hheader : 24 ≤ cur.length)
    (hopen : cur.length < 24 + size.toNat)
    (hahead : cur.length + ahead.length ≤ 24 + size.toNat)
    (hne : pch ≠ []) (hlength : pch.length < 2 ^ 32) {n : Nat}
    (hn : n = min (24 + size.toNat - cur.length) pch.length) :
    ∃ ahead', (dataOf cur ahead).readData pch =
        some (some (UInt32.ofNat n), dataOf (cur ++ pch.take n) ahead') ∧
      cur.length + n + ahead'.length ≤ 24 + size.toNat := by
  have hpch : 0 < pch.length := List.length_pos_iff.mpr hne
  have hpayload : (cur.drop 24).length = cur.length - 24 := List.length_drop
  have hlt := size.toNat_lt
  have hpos : (UInt32.ofNat (cur.length - 24)).toNat = cur.length - 24 :=
    toNat_ofNat (by omega)
  have hremaining : (size - UInt32.ofNat (cur.length - 24)).toNat =
      24 + size.toNat - cur.length := by
    rw [UInt32.toNat_sub_of_le _ _ (by rw [UInt32.le_iff_toNat_le, hpos]; omega), hpos]
    omega
  have hcopy : min (size - UInt32.ofNat (cur.length - 24)) (UInt32.ofNat pch.length) =
      UInt32.ofNat n := by
    apply UInt32.toNat_inj.mp
    rw [toNat_min, hremaining, toNat_ofNat hlength, toNat_ofNat (by omega), hn]
  have htoNat : (UInt32.ofNat n).toNat = n := toNat_ofNat (by omega)
  obtain ⟨room, hbuffer, hroom, hbound⟩ :=
    @readData_buffer (cur.drop 24) ahead size (UInt32.ofNat (cur.length - 24)) (UInt32.ofNat n)
      hsize (by rw [hpos, hpayload]) (by rw [hpayload, htoNat]; omega) (by omega)
  rw [htoNat] at hroom
  have htake : (pch.take n).length = n := by
    rw [List.length_take]
    omega
  have hroom' : room ≠ [] := by
    intro hnil
    rw [hnil, List.length_nil] at hroom
    omega
  have hwrite : memcpyAt (cur.drop 24 ++ room) (UInt32.ofNat (cur.length - 24)).toNat
      (pch.take n) = some (cur.drop 24 ++ pch.take n ++ room.drop n) := by
    have hmemcpy := @memcpyAt_append (cur.drop 24) room (pch.take n) hroom' (by omega)
    rw [hpayload, htake] at hmemcpy
    rw [hpos]
    exact hmemcpy
  refine ⟨room.drop n, ?_, ?_⟩
  · unfold CNetMessage.readData dataOf
    simp only [hdecode, hcopy, hbuffer, htoNat, hwrite]
    have hdrop : (cur ++ pch.take n).drop 24 = cur.drop 24 ++ pch.take n :=
      List.drop_append_of_le_length hheader
    have hcur : (cur ++ pch.take n).take 24 = cur.take 24 :=
      List.take_append_of_le_length hheader
    have hend : UInt32.ofNat (cur.length - 24) + UInt32.ofNat n =
        UInt32.ofNat ((cur ++ pch.take n).length - 24) := by
      apply UInt32.toNat_inj.mp
      rw [UInt32.toNat_add, hpos, htoNat, toNat_ofNat (by rw [List.length_append]; omega),
        List.length_append, htake]
      omega
    rw [hdrop, hcur, hend]
  · rw [List.length_drop]
    omega

/-! ## The messages of a stream -/

section Frames

variable {messageStart : List UInt8}

/-- The frames of a stream, which are the messages of the protocol. -/
abbrev feedBytes (s : Framing.State UInt8) (bytes : List UInt8) : Framing.State UInt8 :=
  Framing.feedAll 24 payloadSize s bytes

theorem feedBytes_append (s : Framing.State UInt8) (as bs : List UInt8) :
    feedBytes s (as ++ bs) = feedBytes (feedBytes s as) bs := Framing.feedAll_append s as bs

theorem feedBytes_of_refused {s : Framing.State UInt8} (h : s.refused = true)
    (bytes : List UInt8) : feedBytes s bytes = s := Framing.feedAll_of_refused h bytes

/-- The incomplete message at the back, for the bytes since the last complete
one. -/
inductive Pending (messageStart : List UInt8) : List UInt8 → List CNetMessage → Prop
  | none : Pending messageStart [] []
  | header {cur : List UInt8} (hpos : 0 < cur.length) (hcur : cur.length < 24) :
      Pending messageStart cur [headerOf messageStart cur]
  | data {cur ahead : List UInt8} {size : UInt32}
      (hdecode : (decodeHeader (cur.take 24)).nMessageSize = size)
      (hsize : size ≤ MAX_PROTOCOL_MESSAGE_LENGTH) (hheader : 24 ≤ cur.length)
      (hopen : cur.length < 24 + size.toNat)
      (hahead : cur.length + ahead.length ≤ 24 + size.toNat) :
      Pending messageStart cur [dataOf cur ahead]

/-- The messages hold the frames that were not taken, and what has come of the
next one. -/
structure Holds (messageStart : List UInt8) (before queued : List (List UInt8))
    (s : Framing.State UInt8) (vRecvMsg : List CNetMessage) : Prop where
  frames : s.frames = before ++ queued
  accepted : s.refused = false
  messages : ∃ pending, vRecvMsg = queued.map messageOf ++ pending ∧
    Pending messageStart s.current pending

theorem dataOf_incomplete {cur ahead : List UInt8}
    (h : cur.length < 24 + (decodeHeader (cur.take 24)).nMessageSize.toNat)
    (hheader : 24 ≤ cur.length) : (dataOf cur ahead).complete = false := by
  show ((decodeHeader (cur.take 24)).nMessageSize == UInt32.ofNat (cur.length - 24)) = false
  rw [beq_eq_false_iff_ne]
  intro heq
  have hlt := (decodeHeader (cur.take 24)).nMessageSize.toNat_lt
  have hpos := congrArg UInt32.toNat heq
  rw [toNat_ofNat (by omega)] at hpos
  omega

/-- A complete payload leaves no room. -/
theorem dataOf_eq_messageOf {cur ahead : List UInt8}
    (hlength : cur.length = 24 + (decodeHeader (cur.take 24)).nMessageSize.toNat)
    (hahead : ahead = []) : dataOf cur ahead = messageOf cur := by
  have hpos : UInt32.ofNat (cur.length - 24) = (decodeHeader (cur.take 24)).nMessageSize := by
    rw [hlength, Nat.add_sub_cancel_left]
    exact UInt32.ofNat_toNat
  rw [hahead]
  unfold messageOf
  rw [← hpos]
  rfl

theorem Pending.incomplete {cur : List UInt8} {pending : List CNetMessage}
    (h : Pending messageStart cur pending) : ∀ msg ∈ pending, msg.complete = false := by
  cases h with
  | none => exact fun _ hmem => absurd hmem List.not_mem_nil
  | header _ _ =>
      intro msg hmem
      rw [List.mem_singleton.mp hmem]
      rfl
  | data hdecode _ hheader hopen _ =>
      intro msg hmem
      rw [List.mem_singleton.mp hmem]
      exact dataOf_incomplete (by rw [hdecode]; exact hopen) hheader

theorem filter_messages {queued : List (List UInt8)} {rest : List CNetMessage}
    (h : ∀ msg ∈ rest, msg.complete = false) :
    (queued.map messageOf ++ rest).filter CNetMessage.complete = queued.map messageOf := by
  have hqueued : (queued.map messageOf).filter CNetMessage.complete =
      queued.map messageOf := by
    rw [List.filter_eq_self]
    intro msg hmem
    obtain ⟨frame, _, hframe⟩ := List.mem_map.mp hmem
    rw [← hframe]
    exact messageOf_complete frame
  have hrest : rest.filter CNetMessage.complete = [] := by
    rw [List.filter_eq_nil_iff]
    intro msg hmem hcomplete
    rw [h msg hmem] at hcomplete
    cases hcomplete
  rw [List.filter_append, hqueued, hrest, List.append_nil]

theorem currentMessage_new (queued : List (List UInt8)) :
    currentMessage messageStart (queued.map messageOf) =
      (queued.map messageOf, headerOf messageStart []) := by
  unfold currentMessage
  cases hlast : (queued.map messageOf).getLast? with
  | none => rfl
  | some msg =>
      obtain ⟨frame, _, hframe⟩ := List.mem_map.mp (List.mem_of_getLast? hlast)
      rw [← hframe]
      show (if (messageOf frame).complete = true then _ else _) = _
      rw [if_pos (messageOf_complete frame)]
      rfl

theorem currentMessage_pending (others : List CNetMessage) {msg : CNetMessage}
    (h : msg.complete = false) :
    currentMessage messageStart (others ++ [msg]) = (others, msg) := by
  unfold currentMessage
  rw [List.getLast?_concat]
  show (if msg.complete = true then _ else _) = _
  rw [h, if_neg Bool.false_ne_true, List.dropLast_concat]

/-- A message whose header was accepted, after some more bytes of it. -/
theorem Holds.settle {before queued : List (List UInt8)} {s : Framing.State UInt8}
    (hframes : s.frames = before ++ queued) (haccepted : s.refused = false)
    {ahead : List UInt8} {size : UInt32}
    (hdecode : (decodeHeader (s.current.take 24)).nMessageSize = size)
    (hsize : size ≤ MAX_PROTOCOL_MESSAGE_LENGTH) (hheader : 24 ≤ s.current.length)
    (hahead : s.current.length + ahead.length ≤ 24 + size.toNat) :
    ∃ queued', Holds messageStart before queued' (Framing.settle 24 payloadSize s)
      (queued.map messageOf ++ [dataOf s.current ahead]) := by
  have hpayload := payloadSize_eq hdecode hsize
  by_cases hfull : s.current.length = 24 + size.toNat
  · have hnil : ahead = [] := List.length_eq_zero_iff.mp (by omega)
    refine ⟨queued ++ [s.current], ?_, ?_, [], ?_, ?_⟩
    · rw [Framing.settle_of_complete hpayload hfull, hframes, List.append_assoc]
    · rw [Framing.settle_of_complete hpayload hfull]
      exact haccepted
    · rw [dataOf_eq_messageOf (by rw [hdecode]; exact hfull) hnil, List.map_append,
        List.append_nil]
      rfl
    · rw [Framing.settle_of_complete hpayload hfull]
      exact Pending.none
  · have hopen : s.current.length < 24 + size.toNat := by omega
    refine ⟨queued, ?_, ?_, [dataOf s.current ahead], rfl, ?_⟩
    · rw [Framing.settle_of_open hheader hpayload hopen]
      exact hframes
    · rw [Framing.settle_of_open hheader hpayload hopen]
      exact haccepted
    · rw [Framing.settle_of_open hheader hpayload hopen]
      exact Pending.data hdecode hsize hheader hopen hahead

/-- What `ReceiveMsgBytes` leaves after some bytes, and whether they were
accepted. -/
inductive Outcome (messageStart : List UInt8) (before : List (List UInt8))
    (s : Framing.State UInt8) (vRecvMsg : List CNetMessage) : Bool → Prop
  | accepted {queued : List (List UInt8)} (h : Holds messageStart before queued s vRecvMsg) :
      Outcome messageStart before s vRecvMsg true
  | rejected {queued : List (List UInt8)} (hrefused : s.refused = true)
      (hframes : s.frames = before ++ queued)
      (hmessages : vRecvMsg.filter CNetMessage.complete = queued.map messageOf) :
      Outcome messageStart before s vRecvMsg false

theorem outcome_refused {before queued : List (List UInt8)} {s : Framing.State UInt8}
    (hframes : s.frames = before ++ queued) {msg : CNetMessage}
    (hincomplete : msg.complete = false) (hheader : s.current.length = 24)
    (hbig : MAX_PROTOCOL_MESSAGE_LENGTH < (decodeHeader s.current).nMessageSize) :
    Outcome messageStart before (Framing.settle 24 payloadSize s)
      (queued.map messageOf ++ [msg]) false := by
  have hnone : payloadSize (s.current.take 24) = none := by
    rw [List.take_of_length_le hheader.le, payloadSize_eq_none hbig]
  rw [Framing.settle_of_refused hheader.ge hnone]
  refine Outcome.rejected rfl hframes (filter_messages fun m hmem => ?_)
  rw [List.mem_singleton.mp hmem]
  exact hincomplete

/-- An iteration that reads the header. -/
theorem receiveStep_header {before queued : List (List UInt8)} {s : Framing.State UInt8}
    {vRecvMsg : List CNetMessage} (hframes : s.frames = before ++ queued)
    (haccepted : s.refused = false) (hcur : s.current.length < 24)
    (hcurrent : currentMessage messageStart vRecvMsg =
      (queued.map messageOf, headerOf messageStart s.current))
    {pch : List UInt8} (hne : pch ≠ []) (hlength : pch.length < 2 ^ 32) {n : Nat}
    (hn : n = min (24 - s.current.length) pch.length) :
    ∃ vRecvMsg' handled,
      receiveStep messageStart vRecvMsg pch = some (vRecvMsg', handled) ∧
      (∀ h ∈ handled, h.toNat = n) ∧
      Outcome messageStart before (feedBytes s (pch.take n)) vRecvMsg' handled.isSome := by
  have hpch : 0 < pch.length := List.length_pos_iff.mpr hne
  obtain ⟨htake, htake'⟩ := take_piece (by omega : 0 < n) (by omega : n ≤ pch.length)
  have hfeed : feedBytes s (pch.take n) =
      Framing.settle 24 payloadSize { s with current := s.current ++ pch.take n } :=
    Framing.feedAll_header haccepted htake' (by omega)
  have htoNat : (UInt32.ofNat n).toNat = n := toNat_ofNat (by omega)
  rw [hfeed]
  unfold receiveStep
  simp only [hcurrent]
  rw [show (headerOf messageStart s.current).in_data = false from rfl, Bool.not_false,
    if_pos rfl]
  by_cases hshort : s.current.length + pch.length < 24
  · have hall : n = pch.length := by omega
    rw [hall] at htoNat
    rw [readHeader_short hshort, hall, List.take_length]
    refine ⟨_, _, rfl, fun h hmem => ?_, ?_⟩
    · cases hmem
      exact htoNat
    · have hshort' : (s.current ++ pch).length < 24 := by
        rw [List.length_append]
        exact hshort
      rw [Framing.settle_of_short hshort']
      have hholds : Holds messageStart before queued { s with current := s.current ++ pch }
          (queued.map messageOf ++ [headerOf messageStart (s.current ++ pch)]) :=
        ⟨hframes, haccepted, _, rfl,
          Pending.header (by rw [List.length_append]; omega) hshort'⟩
      exact Outcome.accepted hholds
  · have hall : n = 24 - s.current.length := by omega
    obtain ⟨header, hheader⟩ : ∃ header, header = s.current ++ pch.take n := ⟨_, rfl⟩
    have hsize : header.length = 24 := by
      rw [hheader, List.length_append, htake]
      omega
    have hwhole : header.take 24 = header := List.take_of_length_le hsize.le
    rw [readHeader_full hcur hlength (by omega) (hall ▸ hheader), ← hheader]
    by_cases hbig : MAX_SIZE < (decodeHeader header).nMessageSize.toNat
    · rw [if_pos hbig]
      have hbig' : MAX_PROTOCOL_MESSAGE_LENGTH < (decodeHeader header).nMessageSize := by
        have hless : MAX_PROTOCOL_MESSAGE_LENGTH.toNat < MAX_SIZE := by decide
        exact UInt32.lt_iff_toNat_lt.mpr (hless.trans hbig)
      exact ⟨_, _, rfl, fun h hmem => (by cases hmem),
        @outcome_refused _ before queued { s with current := header } hframes _ rfl hsize hbig'⟩
    · rw [if_neg hbig]
      have hhdr : (dataOf header []).hdr = decodeHeader header := by
        show decodeHeader (header.take 24) = _
        rw [hwhole]
      by_cases hlong : MAX_PROTOCOL_MESSAGE_LENGTH < (decodeHeader header).nMessageSize
      · have hpositive : 0 < (decodeHeader header).nMessageSize.toNat :=
          lt_of_le_of_lt (Nat.zero_le _) (UInt32.lt_iff_toNat_lt.mp hlong)
        have hincomplete : (dataOf header []).complete = false :=
          dataOf_incomplete (by rw [hwhole]; omega) hsize.ge
        refine ⟨_, none, if_pos ⟨rfl, by rw [hhdr]; exact hlong⟩, fun h hmem => (by cases hmem),
          @outcome_refused _ before queued { s with current := header } hframes _ hincomplete
            hsize hlong⟩
      · refine ⟨_, _, if_neg fun h => hlong (by rw [← hhdr]; exact h.2), fun h hmem => ?_, ?_⟩
        · cases hmem
          rw [← hall]
          exact htoNat
        · obtain ⟨queued', hholds⟩ := @Holds.settle messageStart before queued
            { s with current := header } hframes haccepted [] (decodeHeader header).nMessageSize
            (by rw [hwhole]) (UInt32.not_lt.mp hlong) hsize.ge
            (by rw [List.length_nil]; show header.length + 0 ≤ _; omega)
          exact Outcome.accepted hholds

/-- An iteration that reads the payload. -/
theorem receiveStep_data {before queued : List (List UInt8)} {s : Framing.State UInt8}
    {vRecvMsg : List CNetMessage} (hframes : s.frames = before ++ queued)
    (haccepted : s.refused = false) {ahead : List UInt8} {size : UInt32}
    (hdecode : (decodeHeader (s.current.take 24)).nMessageSize = size)
    (hsize : size ≤ MAX_PROTOCOL_MESSAGE_LENGTH) (hheader : 24 ≤ s.current.length)
    (hopen : s.current.length < 24 + size.toNat)
    (hahead : s.current.length + ahead.length ≤ 24 + size.toNat)
    (hcurrent : currentMessage messageStart vRecvMsg =
      (queued.map messageOf, dataOf s.current ahead))
    {pch : List UInt8} (hne : pch ≠ []) (hlength : pch.length < 2 ^ 32) {n : Nat}
    (hn : n = min (24 + size.toNat - s.current.length) pch.length) :
    ∃ vRecvMsg' handled,
      receiveStep messageStart vRecvMsg pch = some (vRecvMsg', handled) ∧
      (∀ h ∈ handled, h.toNat = n) ∧
      Outcome messageStart before (feedBytes s (pch.take n)) vRecvMsg' handled.isSome := by
  have hpch : 0 < pch.length := List.length_pos_iff.mpr hne
  obtain ⟨htake, htake'⟩ := take_piece (by omega : 0 < n) (by omega : n ≤ pch.length)
  have hpayload := payloadSize_eq hdecode hsize
  have hfeed : feedBytes s (pch.take n) =
      Framing.settle 24 payloadSize { s with current := s.current ++ pch.take n } :=
    Framing.feedAll_payload haccepted htake' hheader hpayload (by omega)
  have hcur : (s.current ++ pch.take n).take 24 = s.current.take 24 :=
    List.take_append_of_le_length hheader
  obtain ⟨ahead', hread, hroom⟩ :=
    readData_spec hdecode hsize hheader hopen hahead hne hlength hn
  rw [hfeed]
  unfold receiveStep
  simp only [hcurrent]
  rw [show (dataOf s.current ahead).in_data = true from rfl, Bool.not_true,
    if_neg Bool.false_ne_true, hread]
  have hsmall : ¬ ((dataOf (s.current ++ pch.take n) ahead').in_data = true ∧
      MAX_PROTOCOL_MESSAGE_LENGTH <
        (dataOf (s.current ++ pch.take n) ahead').hdr.nMessageSize) := by
    intro h
    have hlong : MAX_PROTOCOL_MESSAGE_LENGTH <
        (decodeHeader ((s.current ++ pch.take n).take 24)).nMessageSize := h.2
    rw [hcur, hdecode] at hlong
    exact UInt32.not_lt.mpr hsize hlong
  refine ⟨_, _, if_neg hsmall, fun h hmem => ?_, ?_⟩
  · cases hmem
    exact toNat_ofNat (by omega)
  · obtain ⟨queued', hholds⟩ := @Holds.settle messageStart before queued
      { s with current := s.current ++ pch.take n } hframes haccepted ahead' size
      (by rw [hcur, hdecode]) hsize (by rw [List.length_append]; omega)
      (by rw [List.length_append, htake]; exact hroom)
    exact Outcome.accepted hholds

/-- **An iteration of the loop** consumes at least one byte, and what it leaves
is what the frames are after these bytes. -/
theorem receiveStep_spec {before queued : List (List UInt8)} {s : Framing.State UInt8}
    {vRecvMsg : List CNetMessage} (h : Holds messageStart before queued s vRecvMsg)
    {pch : List UInt8} (hne : pch ≠ []) (hlength : pch.length < 2 ^ 32) :
    ∃ n, 0 < n ∧ n ≤ pch.length ∧ ∃ vRecvMsg' handled,
      receiveStep messageStart vRecvMsg pch = some (vRecvMsg', handled) ∧
      (∀ h ∈ handled, h.toNat = n) ∧
      Outcome messageStart before (feedBytes s (pch.take n)) vRecvMsg' handled.isSome := by
  have hpch : 0 < pch.length := List.length_pos_iff.mpr hne
  obtain ⟨hframes, haccepted, pending, hmessages, hpending⟩ := h
  obtain ⟨frames, cur, refused⟩ := s
  cases hpending with
  | none =>
      rw [List.append_nil] at hmessages
      refine ⟨_, ?_, ?_, receiveStep_header hframes haccepted (show 0 < 24 by decide)
        (by rw [hmessages]; exact currentMessage_new queued) hne hlength rfl⟩
      · rw [List.length_nil]
        omega
      · omega
  | header _ hcur =>
      refine ⟨_, ?_, ?_, receiveStep_header hframes haccepted hcur
        (by rw [hmessages]; exact currentMessage_pending _ rfl) hne hlength rfl⟩
      · omega
      · omega
  | @data _ ahead _ hdecode hsize hheader hopen hahead =>
      have hincomplete : (dataOf cur ahead).complete = false :=
        dataOf_incomplete (by rw [hdecode]; exact hopen) hheader
      refine ⟨_, ?_, ?_, receiveStep_data hframes haccepted hdecode hsize hheader hopen hahead
        (by rw [hmessages]; exact currentMessage_pending _ hincomplete) hne hlength rfl⟩
      · omega
      · omega

/-- The loop: it ends, and leaves what the frames are after all bytes. -/
theorem receiveMsgBytes_spec {before queued : List (List UInt8)} {s : Framing.State UInt8}
    {vRecvMsg : List CNetMessage} (h : Holds messageStart before queued s vRecvMsg)
    {pch : List UInt8} (hlength : pch.length < 2 ^ 32) {iterations : Nat}
    (hiterations : pch.length ≤ iterations) :
    ∃ vRecvMsg' ok,
      receiveMsgBytes messageStart iterations vRecvMsg pch = some (vRecvMsg', ok) ∧
      Outcome messageStart before (feedBytes s pch) vRecvMsg' ok := by
  induction iterations generalizing queued s vRecvMsg pch with
  | zero =>
      have hnil : pch = [] := List.length_eq_zero_iff.mp (by omega)
      rw [hnil]
      exact ⟨_, _, rfl, Outcome.accepted h⟩
  | succ iterations ih =>
      cases pch with
      | nil => exact ⟨_, _, rfl, Outcome.accepted h⟩
      | cons b bs =>
          obtain ⟨n, hpos, hn, vRecvMsg', handled, hstep, hhandled, houtcome⟩ :=
            receiveStep_spec h (List.cons_ne_nil b bs) hlength
          have hfeed : feedBytes s (b :: bs) =
              feedBytes (feedBytes s ((b :: bs).take n)) ((b :: bs).drop n) := by
            rw [← feedBytes_append, List.take_append_drop]
          rw [hfeed]
          cases handled with
          | none =>
              have hloop : receiveMsgBytes messageStart (iterations + 1) vRecvMsg (b :: bs) =
                  some (vRecvMsg', false) := by
                unfold receiveMsgBytes
                rw [hstep]
              cases houtcome with
              | rejected hrefused hframes hmessages =>
                  rw [feedBytes_of_refused hrefused]
                  exact ⟨_, _, hloop, Outcome.rejected hrefused hframes hmessages⟩
          | some handled =>
              have hloop : receiveMsgBytes messageStart (iterations + 1) vRecvMsg (b :: bs) =
                  receiveMsgBytes messageStart iterations vRecvMsg' ((b :: bs).drop n) := by
                conv_lhs => unfold receiveMsgBytes
                rw [hstep, ← hhandled handled rfl]
              have hdrop : ((b :: bs).drop n).length = (b :: bs).length - n :=
                List.length_drop
              rw [hloop]
              cases houtcome with
              | accepted hholds => exact ih hholds (by omega) (by omega)

theorem processMessages_spec (count : Nat) (queued : List (List UInt8))
    {rest : List CNetMessage} (h : ∀ msg ∈ rest, msg.complete = false) :
    processMessages count (queued.map messageOf ++ rest) =
      ((queued.take count).map messageOf, (queued.drop count).map messageOf ++ rest) := by
  induction count generalizing queued with
  | zero => rfl
  | succ count ih =>
      cases queued with
      | nil =>
          cases rest with
          | nil => rfl
          | cons msg rest =>
              show (if !msg.complete then _ else _) = _
              rw [h msg List.mem_cons_self, Bool.not_false, if_pos rfl]
              rfl
      | cons frame queued =>
          show (if !(messageOf frame).complete then _ else _) = _
          rw [messageOf_complete, Bool.not_true, if_neg Bool.false_ne_true]
          show ((messageOf frame :: (processMessages count (queued.map messageOf ++ rest)).1,
            (processMessages count (queued.map messageOf ++ rest)).2) : _ × _) = _
          rw [ih]
          rfl

/-! ## A peer -/

/-- A peer, and the frames of the bytes that it sent. -/
inductive Follows (messageStart : List UInt8) (s : Framing.State UInt8) : Peer → Prop
  | connected {before queued : List (List UInt8)} {vRecvMsg : List CNetMessage}
      (h : Holds messageStart before queued s vRecvMsg) :
      Follows messageStart s ⟨vRecvMsg, before.map messageOf, false⟩
  | rejected {peer : Peer} (hrejected : peer.rejected = true) (hrefused : s.refused = true)
      (hmessages : peer.messages = s.frames.map messageOf) : Follows messageStart s peer

theorem Follows.messages {s : Framing.State UInt8} {peer : Peer}
    (h : Follows messageStart s peer) : peer.messages = s.frames.map messageOf := by
  cases h with
  | connected h =>
      obtain ⟨hframes, _, pending, hqueue, hpending⟩ := h
      unfold Peer.messages
      rw [hqueue, filter_messages hpending.incomplete, hframes, List.map_append]
  | rejected _ _ hmessages => exact hmessages

theorem Follows.rejected_eq {s : Framing.State UInt8} {peer : Peer}
    (h : Follows messageStart s peer) : peer.rejected = s.refused := by
  cases h with
  | connected h => exact h.accepted.symm
  | rejected hrejected hrefused _ => rw [hrejected, hrefused]

theorem Follows.step {s : Framing.State UInt8} {peer : Peer}
    (h : Follows messageStart s peer) (event : Event) :
    ∃ peer', peer.step messageStart event = some peer' ∧
      Follows messageStart (feedBytes s (streamOf [event])) peer' := by
  cases h with
  | rejected hrejected hrefused hmessages =>
      have hstep : peer.step messageStart event = some peer := by
        cases event with
        | receive pch => exact if_pos hrejected
        | process count => exact if_pos hrejected
      rw [feedBytes_of_refused hrefused]
      exact ⟨peer, hstep, Follows.rejected hrejected hrefused hmessages⟩
  | @connected before queued vRecvMsg h =>
      cases event with
      | receive pch =>
          obtain ⟨vRecvMsg', ok, hreceive, houtcome⟩ :=
            receiveMsgBytes_spec h pch.size_lt (le_refl pch.bytes.length)
          have hstep : Peer.step messageStart ⟨vRecvMsg, before.map messageOf, false⟩
              (.receive pch) = some ⟨vRecvMsg', before.map messageOf, !ok⟩ := by
            show (match receiveMsgBytes messageStart pch.bytes.length vRecvMsg pch.bytes with
              | none => none
              | some (vRecvMsg, ok) => some _) = _
            rw [hreceive]
          have hstream : streamOf [Event.receive pch] = pch.bytes := List.append_nil _
          rw [hstream]
          refine ⟨_, hstep, ?_⟩
          cases houtcome with
          | accepted hholds => exact Follows.connected hholds
          | rejected hrefused hframes hmessages =>
              refine Follows.rejected rfl hrefused ?_
              unfold Peer.messages
              rw [hmessages, hframes, List.map_append]
      | process count =>
          obtain ⟨hframes, haccepted, pending, hqueue, hpending⟩ := h
          have hprocess := processMessages_spec count queued hpending.incomplete
          rw [← hqueue] at hprocess
          have hstep : Peer.step messageStart ⟨vRecvMsg, before.map messageOf, false⟩
              (.process count) = some ⟨(queued.drop count).map messageOf ++ pending,
                (before ++ queued.take count).map messageOf, false⟩ := by
            show some (⟨(processMessages count vRecvMsg).2, before.map messageOf ++
              (processMessages count vRecvMsg).1, false⟩ : Peer) = _
            rw [hprocess, List.map_append]
          have hholds : Holds messageStart (before ++ queued.take count) (queued.drop count) s
              ((queued.drop count).map messageOf ++ pending) := by
            refine ⟨?_, haccepted, pending, rfl, hpending⟩
            rw [hframes, List.append_assoc, List.take_append_drop]
          exact ⟨_, hstep, Follows.connected hholds⟩

theorem streamOf_cons (event : Event) (events : List Event) :
    streamOf (event :: events) = streamOf [event] ++ streamOf events := by
  cases event with
  | receive pch =>
      show pch.bytes ++ streamOf events = (pch.bytes ++ []) ++ streamOf events
      rw [List.append_nil]
  | process count => rfl

theorem Follows.run {s : Framing.State UInt8} {peer : Peer}
    (h : Follows messageStart s peer) (events : List Event) :
    ∃ peer', peer.run messageStart events = some peer' ∧
      Follows messageStart (feedBytes s (streamOf events)) peer' := by
  induction events generalizing s peer with
  | nil => exact ⟨peer, rfl, h⟩
  | cons event events ih =>
      obtain ⟨next, hstep, hnext⟩ := h.step event
      obtain ⟨peer', hrun, hfollows⟩ := ih hnext
      refine ⟨peer', ?_, ?_⟩
      · unfold Peer.run
        rw [hstep]
        exact hrun
      · rw [streamOf_cons, feedBytes_append]
        exact hfollows

theorem follows_init : Follows messageStart {} {} := by
  have hholds : Holds messageStart [] [] {} [] := ⟨rfl, rfl, [], rfl, Pending.none⟩
  exact Follows.connected hholds

/-- **The messages of a peer** are the frames of the bytes that it sent. -/
theorem run_frames (messageStart : List UInt8) (events : List Event) :
    ∃ peer, Peer.run messageStart {} events = some peer ∧
      peer.messages = (feedBytes {} (streamOf events)).frames.map messageOf ∧
      peer.rejected = (feedBytes {} (streamOf events)).refused := by
  obtain ⟨peer, hrun, hfollows⟩ := (@follows_init messageStart).run events
  exact ⟨peer, hrun, hfollows.messages, hfollows.rejected_eq⟩

/-- An iteration of the loop that goes on. -/
def Iterates (messageStart : List UInt8) (a b : List CNetMessage × List UInt8) : Prop :=
  a.2 ≠ [] ∧ ∃ handled : UInt32,
    receiveStep messageStart a.1 a.2 = some (b.1, some handled) ∧
      b.2 = a.2.drop handled.toNat

/-- Every iteration finds the messages as the ones before left them. -/
theorem Holds.iterates {before queued : List (List UInt8)} {s : Framing.State UInt8}
    {a b : List CNetMessage × List UInt8} (h : Holds messageStart before queued s a.1)
    (hlength : a.2.length < 2 ^ 32)
    (hiterates : Relation.ReflTransGen (Iterates messageStart) a b) :
    b.2.length < 2 ^ 32 ∧ ∃ queued' s', Holds messageStart before queued' s' b.1 := by
  induction hiterates with
  | refl => exact ⟨hlength, queued, s, h⟩
  | tail _ hnext ih =>
      obtain ⟨hlength', _, _, hholds⟩ := ih
      obtain ⟨hne, handled, hstep, hrest⟩ := hnext
      obtain ⟨n, _, _, _, _, hspec, _, houtcome⟩ := receiveStep_spec hholds hne hlength'
      rw [hstep] at hspec
      cases hspec
      cases houtcome with
      | accepted hholds' =>
          refine ⟨?_, _, _, hholds'⟩
          rw [hrest, List.length_drop]
          omega

/-- **Cutting the stream**: however the bytes of a peer are cut into chunks, and
whenever complete messages are taken off the front, the same messages come out,
with payloads of the size that their headers tell, and the bytes are rejected
after the same messages if at all.  No write goes outside a buffer, and every
iteration that goes on consumes a byte. -/
theorem receive_stream (messageStart : List UInt8) {events₁ events₂ : List Event}
    (hstream : streamOf events₁ = streamOf events₂) :
    ∃ peer₁ peer₂, Peer.run messageStart {} events₁ = some peer₁ ∧
      Peer.run messageStart {} events₂ = some peer₂ ∧
      peer₁.messages = peer₂.messages ∧ peer₁.rejected = peer₂.rejected ∧
      (∀ msg ∈ peer₁.messages, msg.vRecv.length = msg.hdr.nMessageSize.toNat) ∧
      (peer₁.rejected = false → ∀ (pch : Chunk) (vRecvMsg : List CNetMessage)
        (rest : List UInt8), Relation.ReflTransGen (Iterates messageStart)
          (peer₁.vRecvMsg, pch.bytes) (vRecvMsg, rest) → rest ≠ [] →
        ∃ vRecvMsg' handled,
          receiveStep messageStart vRecvMsg rest = some (vRecvMsg', handled) ∧
          ∀ h ∈ handled, 0 < h.toNat ∧ h.toNat ≤ rest.length) := by
  obtain ⟨peer₁, hrun₁, hfollows₁⟩ := (@follows_init messageStart).run events₁
  obtain ⟨peer₂, hrun₂, hfollows₂⟩ := (@follows_init messageStart).run events₂
  have hmessages := hfollows₁.messages
  refine ⟨peer₁, peer₂, hrun₁, hrun₂, ?_, ?_, ?_, ?_⟩
  · rw [hmessages, hfollows₂.messages, hstream]
  · rw [hfollows₁.rejected_eq, hfollows₂.rejected_eq, hstream]
  · intro msg hmem
    rw [hmessages] at hmem
    obtain ⟨frame, hframe, hmsg⟩ := List.mem_map.mp hmem
    obtain ⟨_, n, hsize, hlength⟩ :=
      (Framing.feedAll_sound (streamOf events₁)).isFrame frame hframe
    rw [← hmsg]
    show (frame.drop 24 ++ []).length = (decodeHeader (frame.take 24)).nMessageSize.toNat
    unfold payloadSize at hsize
    split at hsize
    · cases hsize
    · cases hsize
      rw [List.append_nil, List.length_drop, hlength, Nat.add_sub_cancel_left]
  · intro hconnected pch vRecvMsg rest hiterates hne
    cases hfollows₁ with
    | rejected hrejected _ _ =>
        rw [hrejected] at hconnected
        cases hconnected
    | connected hholds =>
        obtain ⟨hlength, _, _, hholds'⟩ := hholds.iterates pch.size_lt hiterates
        obtain ⟨n, hpos, hn, vRecvMsg', handled, hstep, hhandled, _⟩ :=
          receiveStep_spec hholds' hne hlength
        refine ⟨vRecvMsg', handled, hstep, fun h hmem => ?_⟩
        rw [hhandled h hmem]
        exact ⟨hpos, hn⟩

/-- Two messages and part of a third, at once and in pieces. -/
theorem receive_stream_pieces :
    ∃ peer₁ peer₂,
      Peer.run [0, 0, 0, 0] {} [.receive ⟨List.replicate 50 0, by decide⟩] = some peer₁ ∧
      Peer.run [0, 0, 0, 0] {} [.receive ⟨List.replicate 23 0, by decide⟩,
        .receive ⟨List.replicate 2 0, by decide⟩, .process 1,
        .receive ⟨List.replicate 25 0, by decide⟩] = some peer₂ ∧
      peer₁.messages = peer₂.messages ∧ peer₁.rejected = peer₂.rejected := by
  obtain ⟨peer₁, peer₂, hrun₁, hrun₂, hmessages, hrejected, _⟩ :=
    @receive_stream [0, 0, 0, 0] [.receive ⟨List.replicate 50 0, by decide⟩]
      [.receive ⟨List.replicate 23 0, by decide⟩,
        .receive ⟨List.replicate 2 0, by decide⟩, .process 1,
        .receive ⟨List.replicate 25 0, by decide⟩] rfl
  exact ⟨peer₁, peer₂, hrun₁, hrun₂, hmessages, hrejected⟩

end Frames

end Agrarian.Net
