import Photon.Bytes
/-!
# NfcClient — the messages of the NFC protocol

The part of `NfcClient` that the file streams stand on: the constants, a message of `nfcMessageSize` bytes, C strings,
and reading from the channel.  A channel is the list of the bytes it still has to deliver.  `readFully` spins when the
channel has ended before the buffer is full; that is `Fault.stalled`.
-/
namespace Photon.Nfc

open Bytes (int32 int32At int64At)

inductive Fault
  | io (message : String)
  | runtime (message : String)
  | bufferOverflow
  | illegalArgument
  | nullPointer
  | assertion
  | stalled
  deriving DecidableEq

def maxXferSize : Nat := 256 * 1024

def nfcMessageSize : Nat := 264

def nfcFilePut : BitVec 32 := 1

def nfcFileData : BitVec 32 := 7

def nfcError : BitVec 32 := 20

def nfcPutfileDone : BitVec 32 := 27

def fileDataHdrMagic : BitVec 32 := 0xabcdefab

def nfcRaw : BitVec 32 := 0

/-- A message on the wire: its header, and the bytes written after it. -/
structure Message where
  header : List UInt8
  frame : List UInt8
  deriving DecidableEq

namespace Message

def bytes (m : Message) : List UInt8 := m.header ++ m.frame

end Message

def newNfcMsg (msgType : BitVec 32) : List UInt8 := int32 msgType ++ List.replicate (nfcMessageSize - 4) 0

@[simp] theorem length_newNfcMsg (msgType : BitVec 32) : (newNfcMsg msgType).length = nfcMessageSize := by
  rw [newNfcMsg, List.length_append, Bytes.length_int32, List.length_replicate]
  rfl

/-! ## C strings -/

/-- `new String(bytes, US_ASCII)`: a byte outside the charset becomes the replacement character. -/
def decodeAscii (bs : List UInt8) : String :=
  String.ofList (bs.map (fun b => if b.toNat < 128 then Char.ofNat b.toNat else Char.ofNat 0xFFFD))

/-- The bytes without the terminating zero. -/
def stringFromCString (bs : List UInt8) : String := decodeAscii bs.dropLast

/-! ## Reading from the channel -/

/-- Reads from the channel until a buffer of `k` bytes is full: the bytes, and what the channel has left. -/
def readFully (k : Nat) (input : List UInt8) : Except Fault (List UInt8 × List UInt8) :=
  if k ≤ input.length then .ok (input.take k, input.drop k) else .error .stalled

theorem readFully_append {k : Nat} {bs : List UInt8} (rest : List UInt8) (h : bs.length = k) :
    readFully k (bs ++ rest) = .ok (bs, rest) := by
  unfold readFully
  rw [if_pos (by rw [List.length_append]; omega), List.take_left' h, List.drop_left' h]

def readNfcResponse (input : List UInt8) : Except Fault (List UInt8 × List UInt8) := readFully nfcMessageSize input

/-- The text of the error a reply reports; its message follows the reply on the channel. -/
def readNfcErrorMsg (reply input : List UInt8) : Except Fault String :=
  let errorType := (int32At reply 4).toInt
  let errorCode := (int32At reply 8).toInt
  let msgLen := (int32At reply 12).toInt
  if msgLen = 0 then .ok ""
  else if msgLen < 0 then .error .illegalArgument
  else do
    let (msgBuffer, _) ← readFully msgLen.toNat input
    .ok (s!"NFC Error {errorType}/{errorCode}: " ++ decodeAscii (msgBuffer.take (msgLen.toNat - 1)))

def validateReplyCode (reply : List UInt8) (expectedReplyCode : BitVec 32) (input : List UInt8) : Except Fault Unit :=
  let code := int32At reply 0
  if code = nfcError then do
    let message ← readNfcErrorMsg reply input
    .error (.io message)
  else if code ≠ expectedReplyCode then
    .error (.io (s!"Invalid NFC response code ({code.toInt}), expected " ++ toString expectedReplyCode.toInt))
  else .ok ()

theorem validateReplyCode_of_code {reply input : List UInt8} {code : BitVec 32} (h : int32At reply 0 = code)
    (hcode : code ≠ nfcError) : validateReplyCode reply code input = .ok () := by
  unfold validateReplyCode
  simp only [h]
  rw [if_neg hcode, if_neg (by simp)]

/-- A string of the given length with its terminating zero; null when there is nothing to read. -/
def readCString (length : Int) (input : List UInt8) : Except Fault (Option String × List UInt8) :=
  if length ≤ 0 then .ok (none, input)
  else do
    let (bs, input) ← readFully length.toNat input
    .ok (some (stringFromCString bs), input)

end Photon.Nfc
