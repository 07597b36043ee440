/-
Blocking reads and writes on a stream socket.

What the operating system does is an input: a script of `SendResult`s, one for each call
of `send`, and a `RecvResult` for each call of `recv`.  `writeAll` is the loop that calls
`send` until a buffer is written; `writeAll_done` says that it writes exactly the buffer
when the script has no failure and enough calls that accept something,
`bytes_of_writeAll_done` that it has written it whenever it comes to its end, and
`writeAll_failed_iff` for which scripts it fails and leaves part of the buffer written.
-/
import SocketChat.Lib.Bytes
import Mathlib.Algebra.GroupWithZero.Nat

namespace Socket

/-! ### Writing -/

/-- What one call of `send` returns. -/
inductive SendResult where
  /-- The first `n + 1` bytes are accepted, or all if there are not as many. -/
  | accepted (n : ℕ)
  /-- `EAGAIN` or `EWOULDBLOCK`. -/
  | again
  /-- Any other error. -/
  | error
  deriving DecidableEq

namespace SendResult

def isAccepted : SendResult → Bool
  | accepted _ => true
  | _ => false

/-- How many bytes the call accepts where there are as many. -/
def count : SendResult → ℕ
  | accepted n => n + 1
  | _ => 0

/-- The result lets a loop go on that calls `send` again after `again` if `retry`. -/
def proceeds (retry : Bool) : SendResult → Bool
  | accepted _ => true
  | again => retry
  | error => false

end SendResult

inductive Outcome where
  | done
  | failed
  /-- The script has ended, and `send` is still to return. -/
  | pending
  deriving DecidableEq

/-- How a loop of `send`s ends: the bytes accepted, and the part of the script that is
left. -/
structure Written where
  outcome : Outcome
  bytes : Bytes
  script : List SendResult

/-- `while (sent < total) send(buffer + sent, total - sent)`; `retry` is whether the loop
continues after `again`. -/
def writeAll (retry : Bool) (buffer : Bytes) (total : ℕ) : List SendResult → ℕ → Written
  | [], sent => if sent < total then ⟨.pending, [], []⟩ else ⟨.done, [], []⟩
  | result :: script, sent =>
    if sent < total then
      match result with
      | .accepted n =>
        let count := min (n + 1) (total - sent)
        let written := writeAll retry buffer total script (sent + count)
        { written with bytes := (buffer.drop sent).take count ++ written.bytes }
      | .again => if retry then writeAll retry buffer total script sent else ⟨.failed, [], script⟩
      | .error => ⟨.failed, [], script⟩
    else ⟨.done, [], result :: script⟩

/-- The loop is over. -/
theorem writeAll_total (retry : Bool) (buffer : Bytes) (total : ℕ) (script : List SendResult) :
    writeAll retry buffer total script total = ⟨.done, [], script⟩ := by
  cases script with
  | nil => rw [writeAll, if_neg (Nat.lt_irrefl total)]
  | cons result script =>
    rw [writeAll.eq_def]
    simp only [if_neg (Nat.lt_irrefl total)]

/-- **The loop writes the buffer**, if no call fails and as many calls accept something as
there are bytes to write. -/
theorem writeAll_done (retry : Bool) {buffer : Bytes} {total : ℕ} (hbuffer : buffer.length = total)
    (script : List SendResult) :
    ∀ sent ≤ total, (∀ r ∈ script, r.proceeds retry = true) →
      total - sent ≤ script.countP SendResult.isAccepted →
      ∃ rest, writeAll retry buffer total script sent = ⟨.done, buffer.drop sent, rest⟩ ∧
        rest <:+ script ∧ script.countP SendResult.isAccepted ≤
          rest.countP SendResult.isAccepted + (total - sent) := by
  induction script with
  | nil =>
    intro sent hsent _ hcount
    have heq : sent = total := by
      rw [List.countP_nil] at hcount
      omega
    subst heq
    refine ⟨[], ?_, List.suffix_refl _, Nat.zero_le _⟩
    rw [writeAll_total, List.drop_of_length_le (Nat.le_of_eq hbuffer)]
  | cons result script ih =>
    intro sent hsent hproceeds hcount
    have htail : ∀ r ∈ script, r.proceeds retry = true := fun r hr =>
      hproceeds r (List.mem_cons_of_mem result hr)
    by_cases hlt : sent < total
    · cases result with
      | accepted n =>
        have hcons : (SendResult.accepted n :: script).countP SendResult.isAccepted =
            script.countP SendResult.isAccepted + 1 := List.countP_cons_of_pos rfl
        rw [hcons] at hcount ⊢
        -- every call that accepts something accepts a byte at least, so enough calls are left
        obtain ⟨rest, hwrite, hsuffix, hleft⟩ := ih (sent + min (n + 1) (total - sent))
          (by omega) htail (by omega)
        refine ⟨rest, ?_, hsuffix.trans (List.suffix_cons _ _), by omega⟩
        rw [writeAll, if_pos hlt]
        simp only [hwrite]
        rw [← List.drop_drop, List.take_append_drop]
      | again =>
        have hretry : retry = true := hproceeds .again List.mem_cons_self
        have hcons : (SendResult.again :: script).countP SendResult.isAccepted =
            script.countP SendResult.isAccepted := List.countP_cons_of_neg (by decide)
        rw [hcons] at hcount ⊢
        obtain ⟨rest, hwrite, hsuffix, hleft⟩ := ih sent hsent htail hcount
        refine ⟨rest, ?_, hsuffix.trans (List.suffix_cons _ _), hleft⟩
        rw [writeAll, if_pos hlt]
        simp only [hretry, if_true] at hwrite ⊢
        exact hwrite
      | error =>
        have hfalse : false = true := hproceeds .error List.mem_cons_self
        cases hfalse
    · have heq : sent = total := by omega
      subst heq
      refine ⟨result :: script, ?_, List.suffix_refl _, Nat.le_add_right _ _⟩
      rw [writeAll_total, List.drop_of_length_le (Nat.le_of_eq hbuffer)]

/-- A loop that comes to its end has written all that was left, however the calls went. -/
theorem bytes_of_writeAll_done (retry : Bool) {buffer : Bytes} {total : ℕ}
    (hbuffer : buffer.length = total) (script : List SendResult) :
    ∀ sent ≤ total, (writeAll retry buffer total script sent).outcome = .done →
      (writeAll retry buffer total script sent).bytes = buffer.drop sent := by
  have hover : ∀ sent ≤ total, ¬ sent < total → [] = buffer.drop sent := by
    intro sent hsent hnot
    rw [List.drop_of_length_le (by omega)]
  induction script with
  | nil =>
    intro sent hsent hdone
    rw [writeAll] at hdone ⊢
    by_cases hlt : sent < total
    · rw [if_pos hlt] at hdone
      cases hdone
    · rw [if_neg hlt]
      exact hover sent hsent hlt
  | cons result script ih =>
    intro sent hsent hdone
    rw [writeAll.eq_def] at hdone ⊢
    by_cases hlt : sent < total
    · simp only [if_pos hlt] at hdone ⊢
      cases result with
      | accepted n =>
        simp only at hdone ⊢
        rw [ih _ (by omega) hdone, ← List.drop_drop, List.take_append_drop]
      | again =>
        by_cases hretry : retry = true
        · simp only [if_pos hretry] at hdone ⊢
          exact ih sent hsent hdone
        · simp only [if_neg hretry] at hdone
          cases hdone
      | error => cases hdone
    · simp only [if_neg hlt]
      exact hover sent hsent hlt

/-- Whatever comes of the calls, what is written is the beginning of what was left. -/
theorem isPrefix_writeAll (retry : Bool) (buffer : Bytes) (total : ℕ) (script : List SendResult) :
    ∀ sent, (writeAll retry buffer total script sent).bytes <+: buffer.drop sent := by
  induction script with
  | nil =>
    intro sent
    rw [writeAll]
    by_cases hlt : sent < total
    · rw [if_pos hlt]
      exact List.nil_prefix
    · rw [if_neg hlt]
      exact List.nil_prefix
  | cons result script ih =>
    intro sent
    rw [writeAll.eq_def]
    by_cases hlt : sent < total
    · simp only [if_pos hlt]
      cases result with
      | accepted n =>
        have hrest := ih (sent + min (n + 1) (total - sent))
        rw [← List.drop_drop] at hrest
        have hsplit := List.take_append_drop (min (n + 1) (total - sent)) (buffer.drop sent)
        calc (buffer.drop sent).take (min (n + 1) (total - sent)) ++ _
            <+: (buffer.drop sent).take (min (n + 1) (total - sent)) ++
              (buffer.drop sent).drop (min (n + 1) (total - sent)) :=
              (List.prefix_append_right_inj _).mpr hrest
          _ = buffer.drop sent := hsplit
      | again =>
        by_cases hretry : retry = true
        · simp only [if_pos hretry]
          exact ih sent
        · simp only [if_neg hretry]
          exact List.nil_prefix
      | error => exact List.nil_prefix
    · simp only [if_neg hlt]
      exact List.nil_prefix

/-! ### Failing -/

/-- A call that accepts nothing comes before the calls in front of it have accepted `left`
bytes. -/
def FailsWithin (left : ℕ) (script : List SendResult) : Prop :=
  ∃ before result after, script = before ++ result :: after ∧
    (∀ r ∈ before, r.isAccepted = true) ∧ result.isAccepted = false ∧
    (before.map SendResult.count).sum < left

/-- The same after some bytes have been accepted. -/
def BreaksOff (total : ℕ) (script : List SendResult) : Prop :=
  FailsWithin total script ∧ ∃ n rest, script = .accepted n :: rest

theorem not_failsWithin_nil (left : ℕ) : ¬ FailsWithin left [] := by
  rintro ⟨before, result, after, h, -⟩
  cases before with
  | nil => cases h
  | cons r before => cases h

theorem failsWithin_accepted {left n : ℕ} {script : List SendResult} :
    FailsWithin left (.accepted n :: script) ↔ FailsWithin (left - (n + 1)) script := by
  constructor
  · rintro ⟨before, result, after, h, haccepted, hresult, hsum⟩
    cases before with
    | nil =>
      obtain ⟨rfl, -⟩ := List.cons.inj h
      cases hresult
    | cons r before =>
      obtain ⟨rfl, rfl⟩ := List.cons.inj h
      refine ⟨before, result, after, rfl, fun r hr => haccepted r (List.mem_cons_of_mem _ hr),
        hresult, ?_⟩
      rw [List.map_cons, List.sum_cons, SendResult.count] at hsum
      omega
  · rintro ⟨before, result, after, rfl, haccepted, hresult, hsum⟩
    refine ⟨.accepted n :: before, result, after, rfl, ?_, hresult, ?_⟩
    · exact List.forall_mem_cons.mpr ⟨rfl, haccepted⟩
    · rw [List.map_cons, List.sum_cons, SendResult.count]
      omega

theorem failsWithin_other {left : ℕ} {result : SendResult} (hresult : result.isAccepted = false)
    (script : List SendResult) : FailsWithin left (result :: script) ↔ 0 < left := by
  constructor
  · rintro ⟨before, r, after, -, -, -, hsum⟩
    exact Nat.zero_lt_of_lt hsum
  · exact fun hleft => ⟨[], result, script, rfl, by simp, hresult, hleft⟩

/-- The loop that does not retry fails with the first call that does, unless the buffer is
written by then. -/
theorem writeAll_failed (buffer : Bytes) (total : ℕ) (script : List SendResult) :
    ∀ sent ≤ total, (writeAll false buffer total script sent).outcome = .failed ↔
      FailsWithin (total - sent) script := by
  induction script with
  | nil =>
    intro sent hsent
    refine iff_of_false ?_ (not_failsWithin_nil _)
    rw [writeAll]
    by_cases hlt : sent < total
    · rw [if_pos hlt]
      simp
    · rw [if_neg hlt]
      simp
  | cons result script ih =>
    intro sent hsent
    rw [writeAll.eq_def]
    by_cases hlt : sent < total
    · simp only [if_pos hlt]
      cases result with
      | accepted n =>
        rw [failsWithin_accepted]
        simp only
        rw [ih _ (by omega)]
        -- what is accepted is capped only where nothing is left to fail
        have hleft : total - (sent + min (n + 1) (total - sent)) = total - sent - (n + 1) := by
          omega
        rw [hleft]
      | again => exact iff_of_true rfl ((failsWithin_other rfl script).mpr (Nat.sub_pos_of_lt hlt))
      | error => exact iff_of_true rfl ((failsWithin_other rfl script).mpr (Nat.sub_pos_of_lt hlt))
    · obtain rfl : sent = total := by omega
      simp only [if_neg hlt]
      refine iff_of_false (by simp) ?_
      rintro ⟨before, r, after, -, -, -, hsum⟩
      omega

/-- It leaves part of the buffer written if a call before that has accepted something. -/
theorem writeAll_failed_iff {buffer : Bytes} {total : ℕ} (hbuffer : buffer.length = total)
    (script : List SendResult) :
    ((writeAll false buffer total script 0).outcome = .failed ∧
      (writeAll false buffer total script 0).bytes ≠ []) ↔ BreaksOff total script := by
  rw [writeAll_failed buffer total script 0 (Nat.zero_le _), Nat.sub_zero, BreaksOff]
  refine and_congr_right fun hfails => ?_
  have htotal : 0 < total := by
    obtain ⟨before, result, after, -, -, -, hsum⟩ := hfails
    exact Nat.zero_lt_of_lt hsum
  cases script with
  | nil => exact absurd hfails (not_failsWithin_nil _)
  | cons result script =>
    rw [writeAll.eq_def]
    simp only [if_pos htotal]
    cases result with
    | accepted n =>
      refine iff_of_true ?_ ⟨n, script, rfl⟩
      obtain ⟨b, rest, rfl⟩ := List.exists_cons_of_length_pos (hbuffer ▸ htotal)
      have hcount : min (n + 1) (total - 0) = min n (total - 1) + 1 := by omega
      simp only [hcount]
      exact List.cons_ne_nil _ _
    | again => simp
    | error => simp

/-! ### Reading -/

/-- What one call of `recv` with `MSG_WAITALL` does. -/
inductive RecvResult where
  /-- It returns as many bytes as asked for, or fewer when the stream ends. -/
  | full
  /-- It is interrupted after `n` bytes. -/
  | short (n : ℕ)
  | error

/-- The bytes received, `none` for an error, and the stream behind them. -/
def recvWaitAll (count : ℕ) : RecvResult → Bytes → Option Bytes × Bytes
  | .full, incoming => (some (incoming.take count), incoming.drop count)
  | .short n, incoming =>
    (some (incoming.take (min n count)), incoming.drop (min n count))
  | .error, incoming => (none, incoming)

/-- The call returns `count` bytes if the stream has as many. -/
def RecvResult.gives (count : ℕ) : RecvResult → Prop
  | .full => True
  | .short n => count ≤ n
  | .error => False

variable {count : ℕ} {r : RecvResult} {incoming : Bytes}

theorem recvWaitAll_whole (hgives : r.gives count) (incoming : Bytes) :
    recvWaitAll count r incoming = (some (incoming.take count), incoming.drop count) := by
  cases r with
  | full => rfl
  | short n =>
    have hmin : min n count = count := Nat.min_eq_right hgives
    rw [recvWaitAll, hmin]
  | error => exact hgives.elim

/-- A call that returns as many bytes as asked for has got them from the stream. -/
theorem gives_of_recvWaitAll {bytes : Bytes} (h : (recvWaitAll count r incoming).1 = some bytes)
    (hlength : bytes.length = count) : r.gives count ∧ count ≤ incoming.length := by
  cases r with
  | full =>
    obtain rfl := Option.some_inj.mp h
    rw [List.length_take] at hlength
    exact ⟨trivial, by omega⟩
  | short n =>
    obtain rfl := Option.some_inj.mp h
    rw [List.length_take] at hlength
    have hle : count ≤ n := by omega
    exact ⟨hle, by omega⟩
  | error => cases h

/-- No call returns more than it is asked for. -/
theorem length_recvWaitAll_le {bytes : Bytes}
    (h : (recvWaitAll count r incoming).1 = some bytes) : bytes.length ≤ count := by
  cases r with
  | full =>
    obtain rfl := Option.some_inj.mp h
    exact List.length_take_le _ _
  | short n =>
    obtain rfl := Option.some_inj.mp h
    exact Nat.le_trans (List.length_take_le _ _) (Nat.min_le_right _ _)
  | error => cases h

end Socket
