import Parvane.Core

/-!
# Frames on a stream

On a connection without message boundaries every frame is preceded by its length.  The
decoder collects bytes until a frame is complete; a length above the limit is refused before
the frame is read.
-/

namespace Parvane.Codec

open Wire

/-- The limit of a frame. -/
def maxFrame : Nat := 4194304

/-- The limit of a length prefix. -/
def maxPrefix : Nat := 5

/-- A frame after its length. -/
def tcpEncode (frame : Bytes) : Bytes :=
  encodeVarint frame.length ++ frame

structure TcpDecoder where
  buf : Bytes := []
  deriving DecidableEq

/-- Read the length from a byte on; so many bytes of it were read, with the given value. -/
def peekFrom : Nat -> Nat -> Nat -> Bytes -> Result (Option (Nat × Nat))
  | 0, _, _, _ => .error .frameTooLarge
  | _ + 1, _, _, [] => .ok none
  | fuel + 1, count, value, byte :: rest =>
      let value := value + byte.toNat % 128 * 128 ^ count
      if byte.toNat < 128 then
        if maxFrame < value then .error .frameTooLarge else .ok (some (count + 1, value))
      else peekFrom fuel (count + 1) value rest

namespace TcpDecoder

variable (decoder : TcpDecoder)

/-- The length of the prefix and that of the frame, once the prefix is complete. -/
def peekLen : Result (Option (Nat × Nat)) :=
  peekFrom maxPrefix 0 0 decoder.buf

/-- Add bytes that were received. -/
def push (data : Bytes) : Result TcpDecoder := do
  if maxFrame + maxPrefix < decoder.buf.length + data.length then
    let peeked ← decoder.peekLen
    require peeked.isSome .frameTooLarge
  return ⟨decoder.buf ++ data⟩

/-- The next frame, once it is complete. -/
def nextFrame : Result (Option (Bytes × TcpDecoder)) := do
  match ← decoder.peekLen with
  | none => return none
  | some (size, length) =>
      if decoder.buf.length < size + length then return none
      else return some ((decoder.buf.drop size).take length, ⟨decoder.buf.drop (size + length)⟩)

end TcpDecoder

/-! ## The length prefix -/

section

variable {fuel count value : Nat} {bytes more : Bytes}

theorem peekFrom_cons_eq_ok {byte : UInt8} {found : Option (Nat × Nat)} :
    peekFrom (fuel + 1) count value (byte :: bytes) = .ok found ↔
      (byte.toNat < 128 ∧ value + byte.toNat % 128 * 128 ^ count ≤ maxFrame ∧
        found = some (count + 1, value + byte.toNat % 128 * 128 ^ count)) ∨
      (128 ≤ byte.toNat ∧
        peekFrom fuel (count + 1) (value + byte.toNat % 128 * 128 ^ count) bytes = .ok found) := by
  rw [peekFrom]
  by_cases last : byte.toNat < 128
  · rw [if_pos last]
    by_cases large : maxFrame < value + byte.toNat % 128 * 128 ^ count
    · simp [large, last]
    · simp [large, last, not_lt.1 large, eq_comm]
  · simp [last, not_lt.1 last]

theorem peekFrom_eq_some {size length : Nat}
    (peeked : peekFrom fuel count value bytes = .ok (some (size, length))) :
    count < size ∧ size ≤ count + bytes.length ∧ size ≤ count + fuel ∧ length ≤ maxFrame := by
  induction fuel generalizing count value bytes with
  | zero => cases peeked
  | succ fuel inductionHypothesis =>
      cases bytes with
      | nil => cases peeked
      | cons byte bytes =>
          rw [List.length_cons]
          rcases peekFrom_cons_eq_ok.1 peeked with ⟨-, fits, same⟩ | ⟨-, following⟩
          · cases same
            omega
          · have bounds := inductionHypothesis following
            omega

theorem peekFrom_eq_none (peeked : peekFrom fuel count value bytes = .ok none) :
    bytes.length < fuel := by
  induction fuel generalizing count value bytes with
  | zero => cases peeked
  | succ fuel inductionHypothesis =>
      cases bytes with
      | nil => exact Nat.succ_pos _
      | cons byte bytes =>
          rcases peekFrom_cons_eq_ok.1 peeked with ⟨-, -, same⟩ | ⟨-, following⟩
          · cases same
          · exact Nat.succ_lt_succ (inductionHypothesis following)

/-- A complete prefix is not changed by what follows. -/
theorem peekFrom_append {found : Nat × Nat}
    (peeked : peekFrom fuel count value bytes = .ok (some found)) :
    peekFrom fuel count value (bytes ++ more) = .ok (some found) := by
  induction fuel generalizing count value bytes with
  | zero => cases peeked
  | succ fuel inductionHypothesis =>
      cases bytes with
      | nil => cases peeked
      | cons byte bytes =>
          rw [List.cons_append, peekFrom_cons_eq_ok]
          rcases peekFrom_cons_eq_ok.1 peeked with last | ⟨large, following⟩
          · exact .inl last
          · exact .inr ⟨large, inductionHypothesis following⟩

/-- What is read once all digits of a number were received. -/
def settled (size value : Nat) : Result (Option (Nat × Nat)) :=
  if maxFrame < value then .error .frameTooLarge else .ok (some (size, value))

theorem digit_lt (number : Nat) (small : number < 128) : (UInt8.ofNat number).toNat = number := by
  rw [UInt8.toNat_ofNat']
  omega

theorem digit_ge (number : Nat) :
    (UInt8.ofNat (number % 128 + 128)).toNat = number % 128 + 128 := by
  rw [UInt8.toNat_ofNat']
  omega

theorem peekFrom_varintDigits {limit number : Nat}
    (bounded : number ≤ limit)
    (fits : number < 128 ^ (fuel + 1))
    (count value : Nat) (rest : Bytes) :
    peekFrom (fuel + 1) count value (varintDigits limit number ++ rest) =
      settled (count + (varintDigits limit number).length) (value + number * 128 ^ count) := by
  induction limit generalizing fuel count value number with
  | zero =>
      obtain rfl := Nat.le_zero.1 bounded
      simp [varintDigits, peekFrom, settled]
  | succ limit inductionHypothesis =>
      rw [varintDigits]
      split
      · next small =>
          rw [List.singleton_append, peekFrom, digit_lt number small, if_pos small,
            Nat.mod_eq_of_lt small]
          rfl
      · next large =>
          obtain ⟨fuel, rfl⟩ : ∃ previous, fuel = previous + 1 := by
            refine Nat.exists_eq_succ_of_ne_zero fun zero => large ?_
            rwa [zero, zero_add, pow_one] at fits
          rw [List.cons_append, peekFrom, digit_ge, if_neg (by omega), Nat.add_mod_right,
            Nat.mod_mod, inductionHypothesis (by omega) ?_]
          · have split : number % 128 * 128 ^ count + number / 128 * 128 ^ (count + 1) =
                number * 128 ^ count := by
              rw [pow_succ', ← Nat.mul_assoc, ← Nat.add_mul, Nat.mod_add_div' number 128]
            rw [Nat.add_assoc value, split, List.length_cons, Nat.add_assoc count, Nat.add_comm 1]
          · rw [Nat.div_lt_iff_lt_mul (by decide), ← pow_succ]
            exact fits

/-- A prefix that is not complete is waited for. -/
theorem peekFrom_of_lengthBytes {limit number : Nat}
    (bounded : number ≤ limit)
    (fits : number < 128 ^ (fuel + 1))
    {received missing : Bytes} (parts : received ++ missing = varintDigits limit number)
    (incomplete : missing ≠ []) : peekFrom (fuel + 1) count value received = .ok none := by
  induction limit generalizing fuel count value number received with
  | zero =>
      cases received with
      | nil => rfl
      | cons byte received =>
          simp only [varintDigits, List.cons_append, List.cons.injEq, List.append_eq_nil_iff]
            at parts
          exact absurd parts.2.2 incomplete
  | succ limit inductionHypothesis =>
      cases received with
      | nil => rfl
      | cons byte received =>
          rw [varintDigits] at parts
          split at parts
          · simp only [List.cons_append, List.cons.injEq, List.append_eq_nil_iff] at parts
            exact absurd parts.2.2 incomplete
          · next large =>
              obtain ⟨fuel, rfl⟩ : ∃ previous, fuel = previous + 1 := by
                refine Nat.exists_eq_succ_of_ne_zero fun zero => large ?_
                rwa [zero, zero_add, pow_one] at fits
              obtain ⟨rfl, tail⟩ := List.cons.inj parts
              rw [peekFrom, digit_ge, if_neg (by omega)]
              refine inductionHypothesis (by omega) ?_ tail
              rw [Nat.div_lt_iff_lt_mul (by decide), ← pow_succ]
              exact fits

end

/-! ## The next frame -/

namespace TcpDecoder

variable {decoder later : TcpDecoder}

theorem peekLen_eq_some {size length : Nat}
    (peeked : decoder.peekLen = .ok (some (size, length))) :
    0 < size ∧ size ≤ decoder.buf.length ∧ size ≤ maxPrefix ∧ length ≤ maxFrame := by
  simpa using peekFrom_eq_some peeked

/-- Bytes are taken in as they are: whole if the decoder holds little or knows the length that
it waits for, and not at all otherwise. -/
theorem push_eq_ok {data : Bytes} (pushed : decoder.push data = .ok later) :
    later = ⟨decoder.buf ++ data⟩ := by
  unfold push at pushed
  split at pushed
  · simp only [bind_eq_ok] at pushed
    obtain ⟨peeked, -, passed, -, pushed⟩ := pushed
    exact (Except.ok.inj pushed).symm
  · exact (Except.ok.inj pushed).symm

theorem nextFrame_eq_none :
    decoder.nextFrame = .ok none ↔ decoder.peekLen = .ok none ∨
      ∃ size length, decoder.peekLen = .ok (some (size, length)) ∧
        decoder.buf.length < size + length := by
  unfold nextFrame
  rcases decoder.peekLen with error | _ | ⟨size, length⟩
  · simp [bind, Except.bind]
  · simp [bind, Except.bind, pure, Except.pure]
  · by_cases incomplete : decoder.buf.length < size + length
    · simp [bind, Except.bind, pure, Except.pure, incomplete]
    · simp [bind, Except.bind, pure, Except.pure, incomplete]

theorem nextFrame_eq_some {frame : Bytes} :
    decoder.nextFrame = .ok (some (frame, later)) ↔
      ∃ size length, decoder.peekLen = .ok (some (size, length)) ∧
        size + length ≤ decoder.buf.length ∧
        frame = (decoder.buf.drop size).take length ∧
        later = ⟨decoder.buf.drop (size + length)⟩ := by
  unfold nextFrame
  rcases decoder.peekLen with error | _ | ⟨size, length⟩
  · simp [bind, Except.bind]
  · simp [bind, Except.bind, pure, Except.pure]
  · by_cases incomplete : decoder.buf.length < size + length
    · simp [bind, Except.bind, pure, Except.pure, incomplete]
    · simp [bind, Except.bind, pure, Except.pure, incomplete, not_lt.1 incomplete, eq_comm]

/-- A decoder that waits holds less than a prefix and a frame. -/
theorem length_lt_of_nextFrame (waits : decoder.nextFrame = .ok none) :
    decoder.buf.length < maxFrame + maxPrefix := by
  obtain waits | ⟨size, length, peeked, incomplete⟩ := nextFrame_eq_none.1 waits
  · have short := peekFrom_eq_none waits
    omega
  · have bounds := peekLen_eq_some peeked
    omega

/-- Every frame takes some bytes away. -/
theorem length_nextFrame {frame : Bytes}
    (complete : decoder.nextFrame = .ok (some (frame, later))) :
    later.buf.length < decoder.buf.length := by
  obtain ⟨size, length, peeked, enough, -, rfl⟩ := nextFrame_eq_some.1 complete
  have bounds := peekLen_eq_some peeked
  rw [List.length_drop]
  omega

end TcpDecoder

/-! ## Reading a connection -/

/-- The task that reads a connection: the decoder, the frames that it passed on, and whether
it has given up. -/
structure Reader where
  decoder : TcpDecoder := {}
  sent : List Bytes := []
  closed : Bool := false
  deriving DecidableEq

namespace Reader

/-- Pass on all frames that are complete. -/
def drain (reader : Reader) : Reader :=
  match _complete : reader.decoder.nextFrame with
  | .ok (some (frame, later)) =>
      drain { reader with decoder := later, sent := reader.sent ++ [frame] }
  | .ok none => reader
  | .error _ => { reader with closed := true }
termination_by reader.decoder.buf.length
decreasing_by exact TcpDecoder.length_nextFrame _complete

/-- Take in bytes that were received. -/
def receive (reader : Reader) (chunk : Bytes) : Reader :=
  if reader.closed then reader
  else
    match reader.decoder.push chunk with
    | .ok later => drain { reader with decoder := later }
    | .error _ => { reader with closed := true }

theorem drain_of_none {reader : Reader} (waits : reader.decoder.nextFrame = .ok none) :
    reader.drain = reader := by
  rw [drain]
  split
  · next complete => cases waits.symm.trans complete
  · rfl
  · next failed => cases waits.symm.trans failed

theorem drain_of_some {reader : Reader} {frame : Bytes} {later : TcpDecoder}
    (complete : reader.decoder.nextFrame = .ok (some (frame, later))) :
    reader.drain = drain { reader with decoder := later, sent := reader.sent ++ [frame] } := by
  rw [drain]
  split
  · next other =>
      cases complete.symm.trans other
      rfl
  · next waits => cases complete.symm.trans waits
  · next failed => cases complete.symm.trans failed

theorem drain_of_error {reader : Reader} {error : ProtoError}
    (failed : reader.decoder.nextFrame = .error error) :
    reader.drain = { reader with closed := true } := by
  rw [drain]
  split
  · next complete => cases failed.symm.trans complete
  · next waits => cases failed.symm.trans waits
  · rfl

/-! ### The bytes that are held -/

/-- The reader holds less than a prefix and a frame, and waits for more of it. -/
structure Waits (reader : Reader) : Prop where
  length : reader.decoder.buf.length < maxFrame + maxPrefix
  waits : reader.closed = false -> reader.decoder.nextFrame = .ok none

theorem waits_new : Waits {} :=
  ⟨by decide, fun _ => rfl⟩

/-- Passing on frames leaves less than there was. -/
theorem waits_drain {reader : Reader}
    (short : reader.decoder.buf.length < maxFrame + maxPrefix) : Waits reader.drain := by
  induction reader using drain.induct with
  | case1 reader frame later complete inductionHypothesis =>
      rw [drain_of_some complete]
      exact inductionHypothesis ((TcpDecoder.length_nextFrame complete).trans short)
  | case2 reader waits =>
      rw [drain_of_none waits]
      exact ⟨short, fun _ => waits⟩
  | case3 reader error failed =>
      rw [drain_of_error failed]
      exact ⟨short, fun isOpen => nomatch isOpen⟩

/-- A frame that was completed by a chunk leaves a part of that chunk at most. -/
theorem Waits.receive {reader : Reader} (waits : Waits reader) {chunk : Bytes}
    (small : chunk.length ≤ maxFrame) : Waits (reader.receive chunk) := by
  unfold Reader.receive
  split
  · exact waits
  · next isOpen =>
      have waiting := waits.waits (Bool.eq_false_iff.2 isOpen)
      cases pushed : reader.decoder.push chunk with
      | error error => exact ⟨waits.length, fun isOpen => nomatch isOpen⟩
      | ok later =>
          dsimp only
          obtain rfl := TcpDecoder.push_eq_ok pushed
          obtain early | ⟨size, length, peeked, incomplete⟩ :=
            TcpDecoder.nextFrame_eq_none.1 waiting
          · have short := peekFrom_eq_none early
            refine waits_drain ?_
            rw [List.length_append]
            omega
          · have bounds := TcpDecoder.peekLen_eq_some peeked
            have peekedLater : (⟨reader.decoder.buf ++ chunk⟩ : TcpDecoder).peekLen =
                .ok (some (size, length)) := peekFrom_append peeked
            by_cases enough : size + length ≤ reader.decoder.buf.length + chunk.length
            · have complete : (⟨reader.decoder.buf ++ chunk⟩ : TcpDecoder).nextFrame = _ :=
                TcpDecoder.nextFrame_eq_some.2
                  ⟨size, length, peekedLater, by rwa [List.length_append], rfl, rfl⟩
              rw [drain_of_some complete]
              refine waits_drain ?_
              rw [List.length_drop, List.length_append]
              omega
            · have waitsLater : (⟨reader.decoder.buf ++ chunk⟩ : TcpDecoder).nextFrame = .ok none :=
                TcpDecoder.nextFrame_eq_none.2
                  (.inr ⟨size, length, peekedLater, by rw [List.length_append]; omega⟩)
              rw [drain_of_none waitsLater]
              exact ⟨TcpDecoder.length_lt_of_nextFrame waitsLater, fun _ => waitsLater⟩

theorem waits_foldl {chunks : List Bytes} (small : ∀ chunk ∈ chunks, chunk.length ≤ maxFrame)
    {reader : Reader} (waits : Waits reader) : Waits (chunks.foldl receive reader) := by
  induction chunks generalizing reader with
  | nil => exact waits
  | cons chunk chunks inductionHypothesis =>
      exact inductionHypothesis (fun other member => small other (List.mem_cons_of_mem _ member))
        (waits.receive (small chunk List.mem_cons_self))

/-! ### The frames that are passed on -/

theorem fits_lengthBytes {length : Nat} (small : length ≤ maxFrame) : length < 128 ^ (4 + 1) :=
  Nat.lt_of_le_of_lt small (by decide)

/-- The length of a frame is read once its prefix was received. -/
theorem peekLen_of_encode {frame : Bytes} (small : frame.length ≤ maxFrame) (received : Bytes) :
    (⟨encodeVarint frame.length ++ received⟩ : TcpDecoder).peekLen =
      .ok (some ((encodeVarint frame.length).length, frame.length)) := by
  have read := peekFrom_varintDigits (Nat.le_refl frame.length)
    (fits_lengthBytes small) 0 0 received
  rw [settled, if_neg (by omega), Nat.zero_add, Nat.zero_add, pow_zero, Nat.mul_one] at read
  exact read

/-- Bytes that begin in two ways: the one beginning is a proper part of the other, or it
contains it. -/
theorem append_cases {first second third fourth : Bytes}
    (same : first ++ second = third ++ fourth) :
    (∃ absent, absent ≠ [] ∧ first ++ absent = third) ∨
      ∃ more, first = third ++ more ∧ more ++ second = fourth := by
  obtain ⟨absent, begins, ends⟩ | ⟨more, begins, ends⟩ := List.append_eq_append_iff.1 same
  · by_cases last : absent = []
    · rw [last, List.append_nil] at begins
      rw [last, List.nil_append] at ends
      exact .inr ⟨[], by rw [begins, List.append_nil], ends⟩
    · exact .inl ⟨absent, last, begins.symm⟩
  · exact .inr ⟨more, begins, ends.symm⟩

/-- A frame that was received whole is next. -/
theorem nextFrame_of_encode {frame : Bytes} (small : frame.length ≤ maxFrame) (unread : Bytes) :
    (⟨tcpEncode frame ++ unread⟩ : TcpDecoder).nextFrame = .ok (some (frame, ⟨unread⟩)) := by
  have peeked := peekLen_of_encode small (frame ++ unread)
  rw [← List.append_assoc] at peeked
  refine TcpDecoder.nextFrame_eq_some.2 ⟨_, _, peeked, ?_, ?_, ?_⟩
  · simp [tcpEncode]
  · simp [tcpEncode]
  · simp [tcpEncode, ← List.drop_drop]

/-- A frame of which bytes are missing is waited for. -/
theorem nextFrame_of_part {frame received missing : Bytes}
    (small : frame.length ≤ maxFrame) (part : received ++ missing = tcpEncode frame)
    (incomplete : missing ≠ []) : (⟨received⟩ : TcpDecoder).nextFrame = .ok none := by
  refine TcpDecoder.nextFrame_eq_none.2 ?_
  obtain ⟨absent, some, digits⟩ | ⟨body, rfl, bytes⟩ := append_cases part
  · exact .inl (peekFrom_of_lengthBytes (Nat.le_refl _) (fits_lengthBytes small) digits some)
  · refine .inr ⟨_, _, peekLen_of_encode small _, ?_⟩
    have positive := List.length_pos_iff.2 incomplete
    rw [← bytes, List.length_append, List.length_append]
    omega

/-- The frames that were sent are passed on, as far as they were received. -/
theorem drain_of_encode {frames : List Bytes}
    (small : ∀ frame ∈ frames, frame.length ≤ maxFrame) (reader : Reader) {missing : Bytes}
    (parts : reader.decoder.buf ++ missing = frames.flatMap tcpEncode) :
    ∃ done left unread, done ++ left = frames ∧ unread ++ missing = left.flatMap tcpEncode ∧
      (⟨unread⟩ : TcpDecoder).nextFrame = .ok none ∧
      reader.drain = { reader with decoder := ⟨unread⟩, sent := reader.sent ++ done } := by
  induction frames generalizing reader with
  | nil =>
      obtain ⟨empty, -⟩ := List.append_eq_nil_iff.1 parts
      have waits : reader.decoder.nextFrame = .ok none := by
        rw [show reader.decoder = ⟨[]⟩ from congrArg TcpDecoder.mk empty]
        rfl
      refine ⟨[], [], reader.decoder.buf, rfl, parts, waits, ?_⟩
      rw [drain_of_none waits, List.append_nil]
  | cons frame frames inductionHypothesis =>
      have fits := small frame List.mem_cons_self
      obtain ⟨absent, incomplete, part⟩ | ⟨unread, buffered, rest⟩ := append_cases parts
      · have waits := nextFrame_of_part fits part incomplete
        refine ⟨[], frame :: frames, reader.decoder.buf, rfl, parts, waits, ?_⟩
        rw [drain_of_none waits, List.append_nil]
      · have complete : reader.decoder.nextFrame = _ :=
          (congrArg (fun bytes => TcpDecoder.nextFrame ⟨bytes⟩) buffered).trans
            (nextFrame_of_encode fits unread)
        obtain ⟨done, left, last, all, others, waits, drained⟩ := inductionHypothesis
          (fun other member => small other (List.mem_cons_of_mem _ member))
          { reader with decoder := ⟨unread⟩, sent := reader.sent ++ [frame] } rest
        refine ⟨frame :: done, left, last, by rw [List.cons_append, all], others, waits, ?_⟩
        rw [drain_of_some complete, drained, List.append_assoc, List.singleton_append]

/-- A decoder that waits takes in every chunk that is not longer than a frame. -/
theorem push_of_waits {decoder : TcpDecoder}
    (waits : decoder.nextFrame = .ok none) {chunk : Bytes}
    (small : chunk.length ≤ maxFrame) : decoder.push chunk = .ok ⟨decoder.buf ++ chunk⟩ := by
  unfold TcpDecoder.push
  obtain early | ⟨size, length, peeked, -⟩ := TcpDecoder.nextFrame_eq_none.1 waits
  · have short : decoder.buf.length < maxPrefix := peekFrom_eq_none early
    rw [if_neg (by omega)]
    rfl
  · rw [peeked]
    split
    · rfl
    · rfl

/-- Chunks of what was sent are taken in, and its frames are passed on as they complete. -/
theorem foldl_receive {chunks frames : List Bytes}
    (smallFrames : ∀ frame ∈ frames, frame.length ≤ maxFrame)
    (smallChunks : ∀ chunk ∈ chunks, chunk.length ≤ maxFrame) {reader : Reader}
    (isOpen : reader.closed = false) (waits : reader.decoder.nextFrame = .ok none)
    (parts : reader.decoder.buf ++ chunks.flatten = frames.flatMap tcpEncode) :
    chunks.foldl receive reader = { decoder := {}, sent := reader.sent ++ frames } := by
  induction chunks generalizing reader frames with
  | nil =>
      rw [List.flatten_nil, List.append_nil] at parts
      obtain ⟨⟨bytes⟩, sent, closed⟩ := reader
      subst isOpen parts
      cases frames with
      | nil => simp
      | cons frame frames =>
          have complete := nextFrame_of_encode (smallFrames frame List.mem_cons_self)
            (frames.flatMap tcpEncode)
          cases complete.symm.trans waits
  | cons chunk chunks inductionHypothesis =>
      have pushed := push_of_waits waits (smallChunks chunk List.mem_cons_self)
      rw [List.flatten_cons, ← List.append_assoc] at parts
      obtain ⟨done, left, unread, rfl, others, waiting, drained⟩ :=
        drain_of_encode smallFrames
          { reader with decoder := ⟨reader.decoder.buf ++ chunk⟩ } parts
      have received : reader.receive chunk =
          { reader with decoder := ⟨unread⟩, sent := reader.sent ++ done } := by
        rw [receive, if_neg (by simp [isOpen]), pushed]
        exact drained
      rw [List.foldl_cons, received, ← List.append_assoc]
      exact inductionHypothesis
        (fun frame member => smallFrames frame (List.mem_append_right _ member))
        (fun other member => smallChunks other (List.mem_cons_of_mem _ member))
        isOpen waiting others

/-- Frames that are sent over a connection arrive, in whatever chunks the connection delivers
them, and leave nothing behind; and whatever is sent, the reader holds less than one frame and
its length. -/
theorem frames_arrive :
    (∀ frames chunks : List Bytes, (∀ frame ∈ frames, frame.length ≤ maxFrame) ->
      (∀ chunk ∈ chunks, chunk.length ≤ maxFrame) ->
      chunks.flatten = frames.flatMap tcpEncode ->
      chunks.foldl receive {} = { decoder := {}, sent := frames, closed := false }) ∧
    ∀ chunks : List Bytes, (∀ chunk ∈ chunks, chunk.length ≤ maxFrame) ->
      (chunks.foldl receive {}).decoder.buf.length < maxFrame + maxPrefix := by
  refine ⟨fun frames chunks smallFrames smallChunks parts => ?_, fun chunks small => ?_⟩
  · exact foldl_receive smallFrames smallChunks rfl rfl parts
  · exact (waits_foldl small waits_new).length

/-- Two frames in three chunks that cut a prefix and a frame, and a length above the limit. -/
theorem frames_arrive_sample :
    ([[2, 7], [9, 1], [5]].foldl receive {} =
      { decoder := {}, sent := [[7, 9], [5]], closed := false }) ∧
    ([[255, 255, 255], [255, 127]].foldl receive {}).decoder.buf.length <
      maxFrame + maxPrefix := by
  have small : ∀ chunks : List Bytes, (∀ chunk ∈ chunks, chunk.length ≤ 4) ->
      ∀ chunk ∈ chunks, chunk.length ≤ maxFrame :=
    fun chunks short chunk member => (short chunk member).trans (by decide)
  refine ⟨frames_arrive.1 [[7, 9], [5]] _ (small _ ?_) (small _ ?_) ?_,
    frames_arrive.2 _ (small _ ?_)⟩
  · decide
  · decide
  · decide
  · decide

end Reader

end Parvane.Codec
