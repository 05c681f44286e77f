import Photon.NfcClient
import Photon.Fallible
/-!
# NfcFile — raw files over NFC

`NfcFileOutputStream` cuts what is written into frames of at most `maxXferSize` bytes, each after a message header of
its own, and ends with an empty frame; `NfcFileInputStream` reads frame by frame and hands the bytes out in whatever
portions it is asked for.  Whatever the cuts on either side, the bytes that come out are those that went in, and then
the end of the file (`nfcFile_roundTrip`).
-/
namespace Photon.Nfc

open List
open Bytes (int32 int32At int64At slice)
open Fallible (ok_bind)

/-! ## NfcFileOutputStream -/

structure Range where
  data : List UInt8
  offset : Nat
  length : Nat
  fits : offset + length ≤ data.length

def Range.bytes (r : Range) : List UInt8 := slice r.data r.offset r.length

/-- With what it has put on the wire. -/
structure NfcFileOutputStream where
  sent : List Message

namespace NfcFileOutputStream

def writeInt (out : NfcFileOutputStream) (data : List UInt8) (offset length : Nat) : NfcFileOutputStream :=
  let fileDataHdr := int32 fileDataHdrMagic ++ int32 (BitVec.ofNat 32 length)
  { sent := out.sent ++ [⟨newNfcMsg nfcFileData, fileDataHdr ++ slice data offset length⟩] }

def write (out : NfcFileOutputStream) (data : List UInt8) (offset length : Nat) : NfcFileOutputStream :=
  if 0 < length then
    let toWrite := min length maxXferSize
    (out.writeInt data offset toWrite).write data (offset + toWrite) (length - toWrite)
  else out
termination_by length
decreasing_by
  simp only [maxXferSize]
  omega

/-- Sends the empty frame, and then waits for the answer of the server. -/
def close (out : NfcFileOutputStream) (input : List UInt8) : NfcFileOutputStream × Except Fault Unit :=
  (out.writeInt [] 0 0, do
    let (reply, input) ← readNfcResponse input
    validateReplyCode reply nfcPutfileDone input)

def transfer (writes : List Range) (input : List UInt8) : List Message :=
  ((writes.foldl (fun (out : NfcFileOutputStream) r => out.write r.data r.offset r.length) ⟨[]⟩).close input).1.sent

end NfcFileOutputStream

/-! ## NfcFileInputStream -/

/-- The frame buffer is what is left of the frame, or null at the end of the file. -/
structure NfcFileInputStream where
  input : List UInt8
  frameBuffer : Option (List UInt8)
  fileSize : BitVec 64

namespace NfcFileInputStream

def new (input : List UInt8) : NfcFileInputStream := ⟨input, some (List.replicate maxXferSize 0), 0⟩

def readIncoming (s : NfcFileInputStream) : Except Fault NfcFileInputStream := do
  let (msgBuffer, input) ← readNfcResponse s.input
  validateReplyCode msgBuffer nfcFileData input
  let (hdrBuffer, input) ← readFully 8 input
  if fileDataHdrMagic ≠ int32At hdrBuffer 0 then .error (.io "NFC protocol violation")
  else if (int32At hdrBuffer 4).toInt = 0 then .ok { s with input := input, frameBuffer := none }
  else if (int32At hdrBuffer 4).toInt < 0 ∨
    (maxXferSize : Int) < (int32At hdrBuffer 4).toInt then .error .illegalArgument
  else do
    let (frame, input) ← readFully (int32At hdrBuffer 4).toInt.toNat input
    .ok { s with input := input, frameBuffer := some frame }

def init (s : NfcFileInputStream) : Except Fault NfcFileInputStream := do
  let (msgBuffer, input) ← readNfcResponse s.input
  validateReplyCode msgBuffer nfcFilePut input
  if int32At msgBuffer 4 ≠ nfcRaw then .error (.io "Invalid file type in NFC_FILE_PUT response")
  else do
    let (_, input) ← readCString (int32At msgBuffer 12).toInt input
    { s with input := input, fileSize := int64At msgBuffer 16 }.readIncoming

/-- The rest of a `read`, with a frame buffer that is not used up. -/
def readFrame (s : NfcFileInputStream) (len : Nat) : Except Fault (Option (List UInt8) × NfcFileInputStream) :=
  match s.frameBuffer with
  | none => .ok (none, s)
  | some [] => .error .assertion
  | some frame => .ok (some (frame.take len), { s with frameBuffer := some (frame.drop len) })

def read (s : NfcFileInputStream) (len : Nat) : Except Fault (Option (List UInt8) × NfcFileInputStream) :=
  match s.frameBuffer with
  | some [] => do
    let s ← s.readIncoming
    s.readFrame len
  | _ => s.readFrame len

def reads (s : NfcFileInputStream) : List Nat → Except Fault (List (Option (List UInt8)) × NfcFileInputStream)
  | [] => .ok ([], s)
  | len :: lens => do
    let (bytes, s) ← s.read len
    let (rest, s) ← s.reads lens
    .ok (bytes :: rest, s)

end NfcFileInputStream

/-! ## The frames on the wire -/

def filePart (payload : List UInt8) : Message :=
  ⟨newNfcMsg nfcFileData, (int32 fileDataHdrMagic ++ int32 (BitVec.ofNat 32 payload.length)) ++ payload⟩

def Parts (payloads : List (List UInt8)) : Prop := ∀ p ∈ payloads, 0 < p.length ∧ p.length ≤ maxXferSize

def Within (k : Nat) (payloads : List (List UInt8)) : Prop := ∀ p ∈ payloads, p.length ≤ k

def Message.payload (m : Message) : List UInt8 := m.frame.drop 8

theorem payload_filePart (p : List UInt8) : (filePart p).payload = p := by
  rw [Message.payload, filePart]
  exact drop_left' (by rw [length_append, Bytes.length_int32, Bytes.length_int32])

theorem length_bytes_filePart (p : List UInt8) : (filePart p).bytes.length = nfcMessageSize + 8 + p.length := by
  simp [Message.bytes, filePart, Bytes.length_int32]
  omega

theorem length_slice {data : List UInt8} {offset n : Nat} (h : offset + n ≤ data.length) :
    (slice data offset n).length = n := by
  rw [slice, length_take, length_drop]
  omega

namespace NfcFileOutputStream

theorem writeInt_sent {out : NfcFileOutputStream} {data : List UInt8} {offset n : Nat} (h : offset + n ≤ data.length) :
    (out.writeInt data offset n).sent = out.sent ++ [filePart (slice data offset n)] := by
  simp only [writeInt, filePart, length_slice h]

theorem exists_write_sent (data : List UInt8) (offset length : Nat) (out : NfcFileOutputStream)
    (h : offset + length ≤ data.length) :
    ∃ payloads, (out.write data offset length).sent = out.sent ++ payloads.map filePart ∧ Parts payloads ∧
      payloads.flatten = slice data offset length ∧ ∀ k, Within k payloads ↔ min length maxXferSize ≤ k := by
  rw [write]
  by_cases hpos : 0 < length
  · rw [if_pos hpos]
    have hmin : min length maxXferSize ≤ length := Nat.min_le_left _ _
    have hle : min length maxXferSize ≤ maxXferSize := Nat.min_le_right _ _
    have hlt : 0 < min length maxXferSize := Nat.lt_min.2 ⟨hpos, by decide⟩
    obtain ⟨payloads, hsent, hparts, hflatten, hwithin⟩ := exists_write_sent data (offset + min length maxXferSize)
      (length - min length maxXferSize) (out.writeInt data offset (min length maxXferSize)) (by omega)
    refine ⟨slice data offset (min length maxXferSize) :: payloads, ?_, fun p hp => ?_, ?_, fun k => ?_⟩
    · rw [hsent, writeInt_sent (by omega), map_cons, append_assoc, singleton_append]
    · rcases mem_cons.1 hp with rfl | hp
      · rw [length_slice (by omega)]
        exact ⟨hlt, hle⟩
      · exact hparts p hp
    · rw [flatten_cons, hflatten, slice, slice, ← drop_drop, ← take_add, Nat.add_sub_cancel' hmin, slice]
    · -- no later frame of a write is larger than its first one
      rw [Within, forall_mem_cons, ← Within, hwithin k, length_slice (by omega)]
      omega
  · rw [if_neg hpos]
    obtain rfl : length = 0 := Nat.eq_zero_of_not_pos hpos
    refine ⟨[], (append_nil _).symm, nofun, ?_, fun k => ?_⟩
    · rw [flatten_nil, slice, take_zero]
    · simp [Within]
termination_by length
decreasing_by
  simp only [maxXferSize]
  omega

theorem exists_writes_sent : ∀ (writes : List Range) (out : NfcFileOutputStream),
    ∃ payloads, (writes.foldl (fun out r => out.write r.data r.offset r.length) out).sent = out.sent ++
      payloads.map filePart ∧ Parts payloads ∧ payloads.flatten = writes.flatMap Range.bytes ∧
        ∀ k, Within k payloads ↔ ∀ r ∈ writes, min r.length maxXferSize ≤ k
  | [], out => ⟨[], by simp, fun p hp => (by cases hp), rfl, fun k => by simp [Within]⟩
  | r :: writes, out => by
    obtain ⟨first, hfirst, hparts, hbytes, hwithin⟩ := exists_write_sent r.data r.offset r.length out r.fits
    obtain ⟨payloads, hsent, hparts', hbytes', hwithin'⟩ :=
      exists_writes_sent writes (out.write r.data r.offset r.length)
    refine ⟨first ++ payloads, ?_, fun p hp => ?_, ?_, fun k => ?_⟩
    · rw [foldl_cons, hsent, hfirst, map_append, append_assoc]
    · rcases mem_append.1 hp with hp | hp
      · exact hparts p hp
      · exact hparts' p hp
    · rw [flatten_append, hbytes, hbytes', flatMap_cons, Range.bytes]
    · rw [forall_mem_cons, ← hwithin k, ← hwithin' k, Within, forall_mem_append, Within, Within]

theorem exists_transfer (writes : List Range) (input : List UInt8) :
    ∃ payloads, transfer writes input = payloads.map filePart ++ [filePart []] ∧ Parts payloads ∧
      payloads.flatten = writes.flatMap Range.bytes ∧ ∀ k, Within k payloads ↔ ∀ r ∈ writes,
      min r.length maxXferSize ≤ k := by
  obtain ⟨payloads, hsent, hrest⟩ := exists_writes_sent writes ⟨[]⟩
  refine ⟨payloads, ?_, hrest⟩
  rw [transfer, close, writeInt_sent (Nat.le_refl 0), hsent]
  rfl

/-- The messages of a file are within the limit if each frame leaves room for the two headers. -/
theorem forall_size_le_iff (payloads : List (List UInt8)) :
    (∀ m ∈ payloads.map filePart ++ [filePart []], m.bytes.length ≤ maxXferSize) ↔
      Within (maxXferSize - (nfcMessageSize + 8)) payloads := by
  have hroom : nfcMessageSize + 8 ≤ maxXferSize := by decide
  have hclosing : (filePart []).bytes.length ≤ maxXferSize := by rwa [length_bytes_filePart]
  rw [forall_mem_append, forall_mem_map, forall_mem_singleton, and_iff_left hclosing]
  refine forall₂_congr fun p _ => ?_
  rw [length_bytes_filePart]
  omega

/-- **The frames of a raw file against the message limit.**  No frame before the closing one is empty.  All the
messages, with both headers, are within the limit exactly if no write is longer than what the headers leave of it:
`write` cuts at the limit itself. -/
theorem transfer_within_limit_iff (writes : List Range) (answer : List UInt8) :
    ((∀ m ∈ transfer writes answer, m.bytes.length ≤ maxXferSize) ∧
        ∀ m ∈ (transfer writes answer).dropLast, 0 < m.payload.length) ↔
      ∀ r ∈ writes, r.length ≤ maxXferSize - (nfcMessageSize + 8) := by
  obtain ⟨payloads, htransfer, hparts, -, hwithin⟩ := exists_transfer writes answer
  have hfull : ∀ m ∈ (transfer writes answer).dropLast, 0 < m.payload.length := by
    rw [htransfer, dropLast_concat, forall_mem_map]
    intro p hp
    rw [payload_filePart]
    exact (hparts p hp).1
  rw [and_iff_left hfull, htransfer, forall_size_le_iff, hwithin]
  refine forall₂_congr fun r _ => ?_
  simp only [maxXferSize, nfcMessageSize]
  omega

/-- A write of 256 kB goes out as one message of 272 bytes more. -/
theorem transfer_over_limit :
    ¬ ∀ m ∈ transfer [⟨List.replicate maxXferSize 0, 0, maxXferSize, by simp⟩] [], m.bytes.length ≤ maxXferSize := by
  obtain ⟨payloads, htransfer, -, -, hwithin⟩ := exists_transfer [⟨replicate maxXferSize 0, 0, maxXferSize, by simp⟩] []
  rw [htransfer, forall_size_le_iff, hwithin, forall_mem_singleton]
  simp [maxXferSize, nfcMessageSize]

end NfcFileOutputStream

def fileWire (payloads : List (List UInt8)) (after : List UInt8) : List UInt8 :=
  (payloads.map filePart ++ [filePart []]).flatMap Message.bytes ++ after

theorem fileWire_nil (after : List UInt8) : fileWire [] after = (filePart []).bytes ++ after := by
  simp [fileWire]

theorem fileWire_cons (p : List UInt8) (payloads : List (List UInt8)) (after : List UInt8) :
    fileWire (p :: payloads) after = (filePart p).bytes ++ fileWire payloads after := by
  simp [fileWire]

namespace NfcFileInputStream

variable {s : NfcFileInputStream}

theorem toInt_ofNat_length {p : List UInt8} (h : p.length ≤ maxXferSize) :
    (BitVec.ofNat 32 p.length).toInt = p.length := by
  have hlt : 2 * p.length < 2 ^ 32 := Nat.lt_of_le_of_lt (Nat.mul_le_mul_left 2 h) (by decide)
  have hnat : (BitVec.ofNat 32 p.length).toNat = p.length := by
    rw [BitVec.toNat_ofNat, Nat.mod_eq_of_lt (by omega)]
  rw [BitVec.toInt_eq_toNat_of_lt (by omega), hnat]

theorem readIncoming_filePart {p rest : List UInt8} (hinput : s.input = (filePart p).bytes ++ rest)
    (hp : p.length ≤ maxXferSize) :
    s.readIncoming = .ok { s with input := rest, frameBuffer := if p = [] then none else some p } := by
  have hcode : int32At (newNfcMsg nfcFileData) 0 = nfcFileData := Bytes.int32At_zero _ _
  have hsplit : s.input = newNfcMsg nfcFileData ++ ((int32 fileDataHdrMagic ++ int32 (BitVec.ofNat 32 p.length)) ++
      (p ++ rest)) := by
    rw [hinput, Message.bytes, filePart]
    simp only [append_assoc]
  have hmagic : int32At (int32 fileDataHdrMagic ++ int32 (BitVec.ofNat 32 p.length)) 0 = fileDataHdrMagic :=
    Bytes.int32At_zero _ _
  unfold readIncoming readNfcResponse
  rw [hsplit, readFully_append _ (length_newNfcMsg _)]
  simp only [ok_bind]
  rw [validateReplyCode_of_code hcode (by decide)]
  simp only [ok_bind]
  rw [readFully_append _ (by rw [length_append, Bytes.length_int32, Bytes.length_int32])]
  simp only [ok_bind, hmagic, Bytes.int32At_four, toInt_ofNat_length hp]
  rw [if_neg (by simp)]
  by_cases hnil : p = []
  · subst hnil
    rfl
  · have hpos : 0 < p.length := length_pos_iff.2 hnil
    rw [if_neg (by omega), if_neg (by omega), Int.toNat_natCast, readFully_append _ rfl, if_neg hnil]
    rfl

def Holds (s : NfcFileInputStream) (content : List UInt8) : Prop :=
  (s.frameBuffer = none ∧ content = []) ∨
    ∃ frame payloads after, s.frameBuffer = some frame ∧ s.input = fileWire payloads after ∧ Parts payloads ∧
      content = frame ++ payloads.flatten

theorem holds_readIncoming {payloads : List (List UInt8)} {after : List UInt8}
    (hinput : s.input = fileWire payloads after)
    (hparts : Parts payloads) : ∃ s', s.readIncoming = .ok s' ∧ s'.Holds payloads.flatten ∧
      s'.frameBuffer ≠ some [] := by
  cases payloads with
  | nil =>
    rw [fileWire_nil] at hinput
    exact ⟨_, readIncoming_filePart hinput (Nat.zero_le _), .inl ⟨rfl, rfl⟩, by simp⟩
  | cons p payloads =>
    rw [fileWire_cons] at hinput
    obtain ⟨hpos, hle⟩ := hparts p mem_cons_self
    have hne : p ≠ [] := length_pos_iff.1 hpos
    refine ⟨_, readIncoming_filePart hinput hle, .inr ⟨p, payloads, after, if_neg hne, rfl, ?_, flatten_cons⟩, ?_⟩
    · exact fun p' hp' => hparts p' (mem_cons_of_mem p hp')
    · simp [hne]

/-- A read of what the frame buffer has: some of the bytes that are left, or the end of the file if there are none. -/
theorem Holds.readFrame {content : List UInt8} (h : s.Holds content) (hbuffer : s.frameBuffer ≠ some []) {len : Nat}
    (hlen : 1 ≤ len) : (content = [] ∧ s.readFrame len = .ok (none, s)) ∨
      ∃ chunk rest s', content = chunk ++ rest ∧ chunk ≠ [] ∧ s.readFrame len = .ok (some chunk, s') ∧
      s'.Holds rest := by
  rcases h with ⟨hnull, rfl⟩ | ⟨frame, payloads, after, hframe, hinput, hparts, rfl⟩
  · refine .inl ⟨rfl, ?_⟩
    simp only [NfcFileInputStream.readFrame, hnull]
  · cases frame with
    | nil => exact absurd hframe hbuffer
    | cons b frame =>
      refine .inr ⟨(b :: frame).take len, (b :: frame).drop len ++ payloads.flatten,
        { s with frameBuffer := some ((b :: frame).drop len) }, ?_, ?_, ?_,
        .inr ⟨_, payloads, after, rfl, hinput, hparts, rfl⟩⟩
      · rw [← append_assoc, take_append_drop]
      · rw [Ne, take_eq_nil_iff, not_or]
        exact ⟨by omega, cons_ne_nil _ _⟩
      · simp only [NfcFileInputStream.readFrame, hframe]

theorem Holds.read {content : List UInt8} (h : s.Holds content) {len : Nat} (hlen : 1 ≤ len) :
    (content = [] ∧ ∃ s', s.read len = .ok (none, s') ∧ s'.Holds []) ∨
      ∃ chunk rest s', content = chunk ++ rest ∧ chunk ≠ [] ∧ s.read len = .ok (some chunk, s') ∧ s'.Holds rest := by
  by_cases hempty : s.frameBuffer = some []
  · rcases h with ⟨hnull, -⟩ | ⟨frame, payloads, after, hframe, hinput, hparts, rfl⟩
    · rw [hnull] at hempty
      cases hempty
    · cases hframe.symm.trans hempty
      obtain ⟨s', hread, hholds, hbuffer⟩ := holds_readIncoming hinput hparts
      have heq : s.read len = s'.readFrame len := by
        simp only [NfcFileInputStream.read, hempty, hread, ok_bind]
      rw [heq, nil_append]
      rcases hholds.readFrame hbuffer hlen with ⟨hnil, hend⟩ | hchunk
      · exact .inl ⟨hnil, s', hend, hnil ▸ hholds⟩
      · exact .inr hchunk
  · have heq : s.read len = s.readFrame len := by
      unfold NfcFileInputStream.read
      split
      · rename_i hnil
        exact absurd hnil hempty
      · rfl
    rw [heq]
    rcases h.readFrame hempty hlen with ⟨hnil, hend⟩ | hchunk
    · exact .inl ⟨hnil, s, hend, hnil ▸ h⟩
    · exact .inr hchunk

theorem reads_range_succ (sizes : Nat → Nat) (m : Nat) : s.reads ((range (m + 1)).map sizes) = (do
      let (bytes, s) ← s.read (sizes 0) let (rest, s) ← s.reads ((range m).map fun i => sizes (i + 1))
      .ok (bytes :: rest, s)) := by
  rw [range_succ_eq_map, map_cons, map_map]
  rfl

theorem Holds.reads_nil : ∀ (m : Nat) {s : NfcFileInputStream} {sizes : Nat → Nat}, s.Holds [] → (∀ i, 1 ≤ sizes i) →
    ∃ s', s.reads ((range m).map sizes) = .ok ((range m).map fun _ => none, s')
  | 0, s, _, _, _ => ⟨s, rfl⟩
  | m + 1, s, sizes, h, hsizes => by
    rcases h.read (hsizes 0) with ⟨-, s₁, hread, hnext⟩ | ⟨chunk, rest, s₁, hnil, hne, -⟩
    · obtain ⟨s', hreads⟩ := reads_nil m hnext fun i => hsizes (i + 1)
      refine ⟨s', ?_⟩
      rw [reads_range_succ, hread]
      simp only [ok_bind, hreads]
      rw [range_succ_eq_map, map_cons, map_map]
      rfl
    · exact absurd (append_eq_nil_iff.1 hnil.symm).1 hne

/-- **The reads of a stream hand out what it holds**, in portions that are not empty, and then the end of the file. -/
theorem Holds.reads (content : List UInt8) {s : NfcFileInputStream} {sizes : Nat → Nat} (h : s.Holds content)
    (hsizes : ∀ i, 1 ≤ sizes i) : ∃ chunks : List (List UInt8), chunks.flatten = content ∧ (∀ c ∈ chunks, c ≠ []) ∧
      ∀ m, ∃ s', s.reads ((range m).map sizes) = .ok ((range m).map fun i => chunks[i]?, s') := by
  rcases h.read (hsizes 0) with ⟨rfl, -⟩ | ⟨chunk, rest, s₁, hcontent, hne, hread, hnext⟩
  · exact ⟨[], rfl, fun c hc => (by cases hc), fun m => h.reads_nil m hsizes⟩
  · have hpos : 0 < chunk.length := length_pos_iff.2 hne
    obtain ⟨chunks, hflatten, hchunks, hreads⟩ := Holds.reads rest hnext fun i => hsizes (i + 1)
    refine ⟨chunk :: chunks, ?_, fun c hc => ?_, fun m => ?_⟩
    · rw [flatten_cons, hflatten, hcontent]
    · rcases mem_cons.1 hc with rfl | hc
      · exact hne
      · exact hchunks c hc
    · cases m with
      | zero => exact ⟨s, rfl⟩
      | succ m =>
        obtain ⟨s', hrest⟩ := hreads m
        refine ⟨s', ?_⟩
        rw [reads_range_succ, hread]
        simp only [ok_bind, hrest]
        rw [range_succ_eq_map, map_cons, map_map]
        rfl
termination_by content.length
decreasing_by
  rw [hcontent, length_append]
  omega

/-- The `FILE_PUT` reply to a request for a raw file, and the path that follows it. -/
structure FilePut (reply path : List UInt8) : Prop where
  size : reply.length = nfcMessageSize
  code : int32At reply 0 = nfcFilePut
  raw : int32At reply 4 = nfcRaw
  pathLen : path.length = (int32At reply 12).toInt.toNat

theorem exists_readCString {length : Int} {path : List UInt8} (rest : List UInt8) (h : path.length = length.toNat) :
    ∃ string, readCString length (path ++ rest) = .ok (string, rest) := by
  unfold readCString
  by_cases hle : length ≤ 0
  · rw [if_pos hle]
    have hnil : path = [] := length_eq_zero_iff.1 (by omega)
    exact ⟨none, by rw [hnil, nil_append]⟩
  · rw [if_neg hle, readFully_append _ h]
    exact ⟨_, rfl⟩

theorem init_filePut {reply path rest : List UInt8} (h : FilePut reply path) :
    (new (reply ++ (path ++ rest))).init = { new rest with fileSize := int64At reply 16 }.readIncoming := by
  obtain ⟨string, hstring⟩ := exists_readCString rest h.pathLen
  unfold init readNfcResponse
  simp only [new]
  rw [readFully_append _ h.size]
  simp only [ok_bind]
  rw [validateReplyCode_of_code h.code (by decide)]
  simp only [ok_bind]
  rw [if_neg (by rw [h.raw]; simp), hstring]
  rfl

end NfcFileInputStream

open NfcFileInputStream in
/-- **A raw file comes through.**  For any writes, if what the output stream sends is what the input stream receives
after the `FILE_PUT` reply, then reads of any sizes hand out the bytes that were written, and from then on the end of
the file. -/
theorem nfcFile_roundTrip (writes : List Range) (answer reply path after : List UInt8) (hreply : FilePut reply path)
    (sizes : Nat → Nat) (hsizes : ∀ i, 1 ≤ sizes i) :
    ∃ s, (new (reply ++ (path ++ ((NfcFileOutputStream.transfer writes answer).flatMap Message.bytes ++ after)))).init =
      .ok s ∧ ∃ chunks : List (List UInt8), chunks.flatten = writes.flatMap Range.bytes ∧ (∀ c ∈ chunks, c ≠ []) ∧
        ∀ m, ∃ s', s.reads ((List.range m).map sizes) = .ok ((List.range m).map fun i => chunks[i]?, s') := by
  obtain ⟨payloads, htransfer, hparts, hbytes, -⟩ := NfcFileOutputStream.exists_transfer writes answer
  rw [init_filePut hreply, htransfer, ← hbytes]
  obtain ⟨s, hread, hholds, -⟩ := @holds_readIncoming
    { new (fileWire payloads after) with fileSize := int64At reply 16 } payloads after rfl hparts
  exact ⟨s, hread, hholds.reads payloads.flatten hsizes⟩

theorem filePut_newNfcMsg : NfcFileInputStream.FilePut (newNfcMsg nfcFilePut) [] where
  size := length_newNfcMsg _
  code := Bytes.int32At_zero _ _
  raw := by
    rw [newNfcMsg, Bytes.int32At_append (by simp), Bytes.int32At_replicate_zero]
    rfl
  pathLen := by
    rw [newNfcMsg, Bytes.int32At_append (by simp), Bytes.int32At_replicate_zero]
    rfl

/-- Three writes, one of them empty, read back a byte, then two bytes, and so on. -/
theorem nfcFile_roundTrip_threeWrites :
    ∃ s, (NfcFileInputStream.new (newNfcMsg nfcFilePut ++ ([] ++ ((NfcFileOutputStream.transfer
        [⟨[1, 2, 3], 0, 2, by decide⟩, ⟨[], 0, 0, by decide⟩, ⟨[4, 5], 1, 1, by decide⟩]
          []).flatMap Message.bytes ++ [])))).init = .ok s ∧
      ∃ chunks : List (List UInt8), chunks.flatten = [1, 2, 5] ∧ (∀ c ∈ chunks, c ≠ []) ∧
        ∀ m, ∃ s', s.reads ((List.range m).map fun i => i + 1) = .ok ((List.range m).map fun i => chunks[i]?, s') :=
  nfcFile_roundTrip [⟨[1, 2, 3], 0, 2, by decide⟩, ⟨[], 0, 0, by decide⟩, ⟨[4, 5], 1, 1, by decide⟩] []
    (newNfcMsg nfcFilePut) [] [] filePut_newNfcMsg (fun i => i + 1) (fun i => Nat.succ_le_succ (Nat.zero_le i))

end Photon.Nfc
