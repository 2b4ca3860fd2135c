import TradeWire.Proofs.Protocol.Frames

/-! The frames read off a stream are, with what is left, the stream. -/

set_option autoImplicit false
set_option relaxedAutoImplicit false

namespace TradeWire.Frame

variable {limit : Nat} {stream : Bytes}

/-- Reading frame by frame: the frames in front of the first fault, and that fault. -/
inductive Reads (limit : Nat) : Bytes → List Bytes → Fault → Prop
  | stop {stream : Bytes} {fault : Fault} (failed : read limit stream = .error fault) :
      Reads limit stream [] fault
  | next {stream frame rest : Bytes} {frames : List Bytes} {fault : Fault}
      (front : read limit stream = .ok (frame, rest)) (onward : Reads limit rest frames fault) :
      Reads limit stream (frame :: frames) fault

def writeAll (limit : Nat) : List Bytes → Bytes → Except Fault Bytes
  | [], written => .ok written
  | message :: later, written =>
    match write limit message written with
    | .error fault => .error fault
    | .ok more => writeAll limit later more

/-- What each fault says about the bytes that are left of a stream. -/
structure Fault.Explains (limit : Nat) (rest : Bytes) (fault : Fault) : Prop where
  ended : fault = .ended ↔ rest = []
  shortLength : fault = .shortLength ↔ 1 ≤ rest.length ∧ rest.length ≤ 3
  lengthTooSmall : ∀ n, fault = .lengthTooSmall n ↔ announced rest = .ok n ∧ n < 4
  tooLarge : ∀ n most, fault = .tooLarge n most ↔
    announced rest = .ok n ∧ 4 ≤ n ∧ limit < n ∧ most = limit
  cutShort : fault = .cutShort ↔ ∃ n, announced rest = .ok n ∧ 4 ≤ n ∧ n ≤ limit ∧ rest.length < n

private theorem announced_eq_ok {bytes : Bytes} {n : Nat} : announced bytes = .ok n ↔
    4 ≤ bytes.length ∧ n = Word.ofLittleEndian (bytes.take 4) := by
  unfold announced lengthWidth
  by_cases short : bytes.length < 4
  · simp only [short, if_true, reduceCtorEq, false_iff]
    omega
  · simp only [short, if_false, Except.ok.injEq]
    constructor
    · intro same
      exact ⟨by omega, same.symm⟩
    · rintro ⟨_, same⟩
      exact same.symm

private theorem write_eq_ok {message written out : Bytes} : write limit message written = .ok out ↔
    check limit message = .ok () ∧ out = written ++ message := by
  unfold write
  cases checked : check limit message with
  | error fault => simp
  | ok passed => simp [eq_comm]

/-- Whether a frame may be written does not depend on what was written before. -/
theorem exists_write_iff {message written : Bytes} :
    (∃ out, write limit message written = .ok out) ↔ check limit message = .ok () := by
  simp only [write_eq_ok, exists_and_left, exists_eq, and_true]

private theorem writeAll_of_check {messages : List Bytes}
    (checked : ∀ message ∈ messages, check limit message = .ok ()) (written : Bytes) :
    writeAll limit messages written = .ok (written ++ messages.flatten) := by
  induction messages generalizing written with
  | nil => simp [writeAll]
  | cons message later ih =>
    have first : write limit message written = .ok (written ++ message) :=
      write_eq_ok.mpr ⟨checked message (by simp), rfl⟩
    have others := ih (fun other behind => checked other (by simp [behind])) (written ++ message)
    simp only [writeAll, first, others, List.flatten_cons, List.append_assoc]

private theorem read_eq_ok {frame rest : Bytes} (front : read limit stream = .ok (frame, rest)) :
    stream = frame ++ rest ∧ check limit frame = .ok () := by
  unfold read at front
  split at front
  · cases front
  · split at front
    · cases front
    · rename_i n found
      split at front
      · cases front
      · rename_i wide
        split at front
        · cases front
        · rename_i inLimit
          split at front
          · cases front
          · rename_i whole
            cases front
            obtain ⟨_, value⟩ := announced_eq_ok.mp found
            have size : (stream.take n).length = n := by
              rw [List.length_take]
              omega
            -- the length in front of the stream is the length in front of the frame
            have again : announced (stream.take n) = .ok n := by
              apply announced_eq_ok.mpr
              unfold lengthWidth at wide
              have prefix_same : (stream.take n).take 4 = stream.take 4 := by
                rw [List.take_take, Nat.min_eq_left (by omega)]
              exact ⟨by omega, by rw [prefix_same, value]⟩
            refine ⟨(List.take_append_drop n stream).symm, ?_⟩
            simp [check, again, size, inLimit]

private theorem length_lt_of_read {frame rest : Bytes} (front : read limit stream = .ok (frame, rest)) :
    rest.length < stream.length := by
  obtain ⟨rfl, checked⟩ := read_eq_ok front
  have wide : 4 ≤ frame.length := (check_eq_ok checked).1
  rw [List.length_append]
  omega

private theorem explains_of_read {fault : Fault} (failed : read limit stream = .error fault) :
    fault.Explains limit stream := by
  unfold read at failed
  split at failed
  · rename_i none_left
    cases failed
    obtain rfl : stream = [] := by simpa using none_left
    constructor <;> simp [announced, lengthWidth]
  · rename_i some_left
    have present : stream ≠ [] := by simpa using some_left
    have positive : 1 ≤ stream.length := List.length_pos_iff.mpr present
    cases found : announced stream with
    | error other =>
      have short : stream.length < 4 := by
        apply Nat.lt_of_not_le
        intro long
        rw [announced_eq_ok.mpr ⟨long, rfl⟩] at found
        cases found
      have same : other = .shortLength := by
        simpa [announced, lengthWidth, short] using found.symm
      rw [found] at failed
      cases failed
      subst same
      constructor <;> simp [found, present, positive]
      omega
    | ok n =>
      have long : 4 ≤ stream.length := (announced_eq_ok.mp found).1
      rw [found] at failed
      have width : lengthWidth = 4 := rfl
      simp only at failed
      split at failed
      · rename_i small
        cases failed
        constructor <;> simp [found, present] <;> omega
      · rename_i wide
        split at failed
        · rename_i above
          cases failed
          constructor <;> simp [found, present] <;> omega
        · rename_i inLimit
          split at failed
          · rename_i cut
            cases failed
            constructor <;> simp [found, present] <;> omega
          · cases failed

private theorem Reads.unique {frames others : List Bytes} {fault other : Fault}
    (reads : Reads limit stream frames fault) (again : Reads limit stream others other) :
    others = frames ∧ other = fault := by
  induction reads generalizing others other with
  | stop failed =>
    cases again with
    | stop also =>
      rw [failed] at also
      cases also
      exact ⟨rfl, rfl⟩
    | next front =>
      rw [failed] at front
      cases front
  | next front onward ih =>
    cases again with
    | stop failed =>
      rw [front] at failed
      cases failed
    | next also further =>
      rw [front] at also
      cases also
      obtain ⟨rfl, rfl⟩ := ih further
      exact ⟨rfl, rfl⟩

private theorem reads_readAllFrom (fuel : Nat) (enough : stream.length < fuel) :
    Reads limit stream (readAllFrom limit fuel stream).1 (readAllFrom limit fuel stream).2 := by
  induction fuel generalizing stream with
  | zero => omega
  | succ fuel ih =>
    simp only [readAllFrom]
    cases front : read limit stream with
    | error fault => exact .stop front
    | ok answer =>
      have shorter := length_lt_of_read front
      exact .next front (ih (by omega))

private theorem reads_readAll (limit : Nat) (stream : Bytes) :
    Reads limit stream (readAll limit stream).1 (readAll limit stream).2 :=
  reads_readAllFrom _ (Nat.lt_succ_self _)

/-- What was read are frames from the front of the stream, and the fault tells what is behind them. -/
theorem Reads.splits {frames : List Bytes} {fault : Fault} (reads : Reads limit stream frames fault) :
    ∃ rest, stream = frames.flatten ++ rest ∧ (∀ frame ∈ frames, check limit frame = .ok ()) ∧
      read limit rest = .error fault := by
  induction reads with
  | @stop stream fault failed => exact ⟨stream, rfl, by simp, failed⟩
  | @next stream frame rest frames fault front onward ih =>
    obtain ⟨left, whole, checked, failed⟩ := ih
    obtain ⟨here, first⟩ := read_eq_ok front
    refine ⟨left, by rw [here, whole, List.flatten_cons, List.append_assoc], ?_, failed⟩
    intro other member
    rcases List.mem_cons.mp member with rfl | later
    · exact first
    · exact checked other later

/-- Frames are a lossless code for lists of messages. Messages that may be written make up a stream from
which just they are read, up to a clean end. Every stream is read in one way: its frames may be written
under the same limit, they and what is left make up the stream, and the fault that ends reading says what
is left. -/
theorem framing_lossless (limit : Nat) :
    (∀ messages : List Bytes, (∀ message ∈ messages, ∃ out, write limit message [] = .ok out) →
      writeAll limit messages [] = .ok messages.flatten ∧ Reads limit messages.flatten messages .ended) ∧
    ∀ stream : Bytes, ∃ frames fault rest, readAll limit stream = (frames, fault) ∧
      (∀ others other, Reads limit stream others other ↔ others = frames ∧ other = fault) ∧
      (∀ frame ∈ frames, ∃ out, write limit frame [] = .ok out) ∧ stream = frames.flatten ++ rest ∧
        read limit rest = .error fault ∧ fault.Explains limit rest := by
  constructor
  · intro messages writable
    have checked : ∀ message ∈ messages, check limit message = .ok () :=
      fun message member => exists_write_iff.mp (writable message member)
    have reads := reads_readAll limit messages.flatten
    rw [readAll_flatten checked] at reads
    exact ⟨writeAll_of_check checked [], reads⟩
  · intro stream
    have reads := reads_readAll limit stream
    obtain ⟨rest, whole, checked, failed⟩ := reads.splits
    refine ⟨_, _, rest, rfl, ?_, ?_, whole, failed, explains_of_read failed⟩
    · intro others other
      constructor
      · exact reads.unique
      · rintro ⟨rfl, rfl⟩
        exact reads
    · intro frame member
      exact exists_write_iff.mpr (checked frame member)

theorem two_framing_lossless :
    (∀ message ∈ [[4, 0, 0, 0], [5, 0, 0, 0, 7]], ∃ out, write 5 message [] = .ok out) ∧
      writeAll 5 [[4, 0, 0, 0], [5, 0, 0, 0, 7]] [] = .ok [4, 0, 0, 0, 5, 0, 0, 0, 7] ∧
        Reads 5 [4, 0, 0, 0, 5, 0, 0, 0, 7] [[4, 0, 0, 0], [5, 0, 0, 0, 7]] .ended ∧
          Reads 5 [4, 0, 0, 0, 5, 0] [[4, 0, 0, 0]] .shortLength := by
  have writable : ∀ message ∈ [[4, 0, 0, 0], [5, 0, 0, 0, 7]], ∃ out, write 5 message [] = .ok out := by
    intro message member
    apply exists_write_iff.mpr
    rcases List.mem_cons.mp member with rfl | last
    · rfl
    · obtain rfl : message = [5, 0, 0, 0, 7] := by simpa using last
      rfl
  obtain ⟨forth, back⟩ := framing_lossless 5
  obtain ⟨written, reads⟩ := forth _ writable
  obtain ⟨frames, fault, _, cut, only, _⟩ := back [4, 0, 0, 0, 5, 0]
  refine ⟨writable, written, reads, (only _ _).mpr ?_⟩
  have whole : readAll 5 [4, 0, 0, 0, 5, 0] = ([[4, 0, 0, 0]], .shortLength) := rfl
  rw [whole] at cut
  cases cut
  exact ⟨rfl, rfl⟩

end TradeWire.Frame
