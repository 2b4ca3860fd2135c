import TradeWire.Protocol.Frame

/-! Frames that may be written make up a stream from which just these frames are read. -/

set_option autoImplicit false
set_option relaxedAutoImplicit false

namespace TradeWire.Frame

theorem check_eq_ok {limit : Nat} {message : Bytes} (checked : check limit message = .ok ()) :
    lengthWidth ≤ message.length ∧ message.length ≤ limit ∧
      Word.ofLittleEndian (message.take lengthWidth) = message.length := by
  unfold check announced at checked
  split at checked
  · cases checked
  · rename_i length found
    split at found
    · cases found
    · cases found
      split at checked
      · cases checked
      · split at checked
        · cases checked
        · rename_i agree
          exact ⟨by omega, by omega, by simpa using agree⟩

private theorem read_append {limit : Nat} {message : Bytes} (checked : check limit message = .ok ())
    (rest : Bytes) : read limit (message ++ rest) = .ok (message, rest) := by
  obtain ⟨wide, inLimit, length⟩ := check_eq_ok checked
  have positive : 0 < lengthWidth := by decide
  have present : (message ++ rest).isEmpty = false := by
    rw [List.isEmpty_eq_false_iff]
    intro none_left
    have empty := congrArg List.length none_left
    rw [List.length_append, List.length_nil] at empty
    omega
  have front : announced (message ++ rest) = .ok message.length := by
    have long : ¬(message ++ rest).length < lengthWidth := by
      rw [List.length_append]
      omega
    rw [announced, if_neg long, List.take_append_of_le_length wide, length]
  simp [read, present, front, Nat.not_lt.mpr wide, Nat.not_lt.mpr inLimit]

private theorem readAllFrom_flatten {limit : Nat} {messages : List Bytes}
    (checked : ∀ message ∈ messages, check limit message = .ok ()) (fuel : Nat)
    (enough : messages.length < fuel) :
    readAllFrom limit fuel messages.flatten = (messages, .ended) := by
  induction messages generalizing fuel with
  | nil =>
    cases fuel with
    | zero => omega
    | succ fuel => rfl
  | cons message later ih =>
    cases fuel with
    | zero => omega
    | succ fuel =>
      have tail := ih (fun other behind => checked other (by simp [behind])) fuel
        (by simpa using enough)
      simp [readAllFrom, read_append (checked message (by simp)), tail]

theorem readAll_flatten {limit : Nat} {messages : List Bytes}
    (checked : ∀ message ∈ messages, check limit message = .ok ()) :
    readAll limit messages.flatten = (messages, .ended) := by
  refine readAllFrom_flatten checked _ ?_
  -- every frame has a byte at least
  have count : messages.length ≤ messages.flatten.length := by
    induction messages with
    | nil => simp
    | cons message later ih =>
      have wide := (check_eq_ok (checked message (by simp))).1
      have positive : 0 < lengthWidth := by decide
      have tail := ih fun other behind => checked other (by simp [behind])
      rw [List.length_cons, List.flatten_cons, List.length_append]
      omega
  omega

end TradeWire.Frame
