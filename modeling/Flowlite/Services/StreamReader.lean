import Flowlite.Host.Process
import Flowlite.Text.Boundaries
import Flowlite.Text.Utf8

/-!
# The reader of one stream

What `read_task_run_attempt_stream` sends of what it reads: the head of the stream as it
arrives, and once that is full a rolling tail, under two markers that say what is missing.
Text is the characters it consists of, and every length is in bytes of UTF-8. A reader is
its carry, its budget and what it has sent; it sends to a channel that is still open.
-/

namespace Flowlite.Services

open Flowlite.Store Flowlite.Host Flowlite.Text

/-- Splits off everything in `carry` that is complete UTF-8, and what is left of it. -/
def takeValidUtf8 (carry : List UInt8) : List Char × List UInt8 :=
  match _h : fromUtf8 carry with
  | { valid, rest := [], .. } => (valid, [])
  | { valid, rest := b :: bs, errorLen := none } => (valid, b :: bs)
  | { valid, rest := _ :: bs, errorLen := some invalidLen } =>
      -- the first octet is consumed, and those that belong to it
      let later := takeValidUtf8 (bs.drop (invalidLen - 1))
      (valid ++ replacementCharacter :: later.1, later.2)
termination_by carry.length
decreasing_by
  have hrest := length_rest_fromUtf8 carry
  rw [_h, List.length_cons] at hrest
  rw [List.length_drop]
  omega

/-- What a reader sends: something it read, or a marker. -/
inductive Sent
  | text (content : List Char)
  | overBudget (maxBytes tailBytes : Nat)
  | dropped (bytes : Nat)
  deriving DecidableEq

def Sent.content : Sent → String
  | .text content => String.ofList content
  | .overBudget maxBytes tailBytes =>
      "\n[flowlite: over " ++ toString maxBytes ++
        " bytes, so the middle is dropped and the last " ++ toString tailBytes ++
        " follow when the command ends]\n"
  | .dropped bytes => "[flowlite: " ++ toString bytes ++ " bytes dropped]\n"

/-- The chunk it is sent in. -/
def Sent.chunk (stream : TaskRunAttemptOutputStream) (s : Sent) : TaskRunAttemptOutputChunk :=
  { stream, content := s.content }

/-- One stream's budget, spent from both ends. -/
structure StreamCapture where
  maxBytes : Nat
  headRoom : Nat
  tailBytes : Nat
  tail : List Char
  /-- Everything past the head, whether or not it is still in the tail. -/
  held : Nat
  capped : Bool
  deriving DecidableEq

def StreamCapture.new (maxStreamBytes : Nat) : StreamCapture :=
  let head := maxStreamBytes / 2
  { maxBytes := maxStreamBytes, headRoom := head, tailBytes := maxStreamBytes - head
    tail := [], held := 0, capped := false }

/-- Drops from the front until at most `max` bytes are left, on a character boundary. -/
def trimToTail (tail : List Char) (max : Nat) : List Char :=
  if byteLen tail ≤ max then tail
  else
    let cutAt := byteLen tail - max
    let start := ((List.range' cutAt (byteLen tail + 1 - cutAt)).find?
      (isCharBoundary tail)).getD (byteLen tail)
    (splitAtByte tail start).2

/-- `end` moved down to a boundary. -/
def downToBoundary (content : List Char) : Nat → Nat
  | 0 => 0
  | e + 1 => if isCharBoundary content (e + 1) then e + 1 else downToBoundary content e

/-- The longest prefix of at most `max` bytes that is still whole characters. -/
def truncateAtCharBoundary (content : List Char) (max : Nat) : List Char :=
  if byteLen content ≤ max then content
  else (splitAtByte content (downToBoundary content max)).1

/-- Sends what still fits in the head, and holds the rest in the tail. -/
def record (capture : StreamCapture) (content : List Char) : StreamCapture × List Sent :=
  if byteLen content ≤ capture.headRoom then
    ({ capture with headRoom := capture.headRoom - byteLen content }, [.text content])
  else
    let head := truncateAtCharBoundary content capture.headRoom
    let rest := (splitAtByte content (byteLen head)).2
    let held := capture.held + byteLen rest
    let tail := trimToTail (capture.tail ++ rest) capture.tailBytes
    let caps := !capture.capped && byteLen tail < held
    ({ capture with
        headRoom := capture.headRoom - byteLen head
        held, tail, capped := capture.capped || caps },
      (if head.isEmpty then [] else [.text head]) ++
        if caps then [.overBudget capture.maxBytes capture.tailBytes] else [])

/-- Sends the tail the stream ended with, under a marker naming what fell out. -/
def flushTail (capture : StreamCapture) : List Sent :=
  (if capture.capped then [.dropped (capture.held - byteLen capture.tail)] else []) ++
    if capture.tail.isEmpty then [] else [.text capture.tail]

/-- A reader between two reads. -/
structure StreamReader where
  carry : List UInt8
  capture : StreamCapture
  sent : List Sent

def StreamReader.new (maxStreamBytes : Nat) : StreamReader :=
  { carry := [], capture := .new maxStreamBytes, sent := [] }

def StreamReader.record (r : StreamReader) (content : List Char) : StreamReader :=
  let recorded := Services.record r.capture content
  { r with capture := recorded.1, sent := r.sent ++ recorded.2 }

/-- One read that was not the end of the stream. -/
def StreamReader.read (r : StreamReader) (bytes : List UInt8) : StreamReader :=
  let taken := takeValidUtf8 (r.carry ++ bytes)
  let r := { r with carry := taken.2 }
  if taken.1.isEmpty then r else r.record taken.1

/-- The stream has ended: what the reader has sent when it returns. -/
def StreamReader.finish (r : StreamReader) : List Sent :=
  let r := if r.carry.isEmpty then r else r.record [replacementCharacter]
  r.sent ++ flushTail r.capture

/-- Everything sent for a stream that is read in these pieces. An empty read is its end. -/
def readTaskRunAttemptStream (maxStreamBytes : Nat) (reads : List (List UInt8)) : List Sent :=
  ((reads.takeWhile (!·.isEmpty)).foldl StreamReader.read (.new maxStreamBytes)).finish

end Flowlite.Services
