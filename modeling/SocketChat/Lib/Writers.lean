/-
Writers that share streams.

Each of a number of workers writes frames to streams, one frame at a time, by the loop of
`writeAll`: it calls `send` until the frame is written and gives up at an error.  Nothing
keeps two workers from writing to one stream at the same time.  Every byte a stream
accepts carries the number of the call it belongs to, so that `Aligned` can say that what
a stream has accepted are whole frames one after the other, and part of one more.
`aligned_iff_undisturbed` shows that this holds in exactly the runs in which a stream
accepts nothing while another frame has been begun there and not completed.
-/
import SocketChat.Lib.Socket
import SocketChat.Lib.Transition
import Mathlib.Data.List.Nodup
import Mathlib.Logic.Function.Basic

namespace Socket

/-- A call in progress: its number, and how many bytes of its frame are accepted. -/
structure Writing (F J : Type*) where
  number : ℕ
  stream : F
  job : J
  sent : ℕ

/-- Workers `W` writing the frames of jobs `J` to streams `F`.  `calls` lists the calls
made; `torn` says on which streams one was given up after part of its frame.  Both are
read by no step. -/
structure Writers (W F J : Type*) where
  calls : List (F × J)
  worker : W → Option (Writing F J)
  accepted : F → List (ℕ × UInt8)
  torn : F → Bool

namespace Writers

variable {W F J : Type*}

/-- The bytes of a frame, each with the number of its call. -/
def tag (i : ℕ) (bytes : Bytes) : List (ℕ × UInt8) := bytes.map (i, ·)

def init (W F J : Type*) : Writers W F J where
  calls := []
  worker _ := none
  accepted _ := []
  torn _ := false

inductive Event (W F J : Type*) where
  /-- A worker that is free begins with a frame. -/
  | call (w : W) (stream : F) (job : J)
  /-- A worker's call of `send` returns. -/
  | send (w : W) (result : SendResult)

/-- The pass of a worker's loop in which `send` returns `result`. -/
def pass [DecidableEq W] [DecidableEq F] (frame : J → Bytes) (s : Writers W F J) (w : W)
    (c : Writing F J) : SendResult → Writers W F J
  | .accepted n =>
    let count := min (n + 1) ((frame c.job).length - c.sent)
    { s with
      worker := Function.update s.worker w
        (if c.sent + count < (frame c.job).length then some { c with sent := c.sent + count }
          else none)
      accepted := Function.update s.accepted c.stream
        (s.accepted c.stream ++ tag c.number (((frame c.job).drop c.sent).take count)) }
  | .again => s
  | .error =>
    { s with
      worker := Function.update s.worker w none
      torn := if 0 < c.sent then Function.update s.torn c.stream true else s.torn }

def step [DecidableEq W] [DecidableEq F] (frame : J → Bytes) (s : Writers W F J) :
    Event W F J → Option (Writers W F J)
  | .call w stream job =>
    match s.worker w with
    | some _ => none
    | none => some { s with
        calls := s.calls ++ [(stream, job)]
        worker := Function.update s.worker w (some ⟨s.calls.length, stream, job, 0⟩) }
  | .send w result => (s.worker w).map fun c => pass frame s w c result

/-- What a stream has accepted. -/
def bytes (s : Writers W F J) (f : F) : Bytes := (s.accepted f).map Prod.snd

/-- The frames of some calls, one after the other. -/
def frames (frame : J → Bytes) (order : List (ℕ × J)) : List (ℕ × UInt8) :=
  order.flatMap fun x => tag x.1 (frame x.2)

/-- Every stream has accepted whole frames of different calls, one after the other, and
part of one more. -/
def Aligned (frame : J → Bytes) (s : Writers W F J) : Prop :=
  ∀ f, ∃ order : List (ℕ × J), (order.map Prod.fst).Nodup ∧
    (∀ x ∈ order, s.calls[x.1]? = some (f, x.2)) ∧ s.accepted f <+: frames frame order

/-- A stream accepts bytes of a frame only while no other frame has been begun there and
not completed: no other worker is in the middle of one, and none was given up. -/
def Event.Undisturbed (s : Writers W F J) : Event W F J → Prop
  | .send w (.accepted _) => ∀ c, s.worker w = some c → s.torn c.stream = false ∧
      ∀ v d, v ≠ w → s.worker v = some d → d.stream = c.stream → d.sent = 0
  | _ => True

variable {frame : J → Bytes} {s s' : Writers W F J} {e : Event W F J}

/-! ### Frames one after the other -/

@[simp] theorem map_snd_tag (i : ℕ) (b : Bytes) : (tag i b).map Prod.snd = b := by
  rw [tag, List.map_map]
  exact List.map_id _

theorem tag_append (i : ℕ) (a b : Bytes) : tag i (a ++ b) = tag i a ++ tag i b :=
  List.map_append

/-- Without the numbers of the calls: whole frames, and part of one more. -/
theorem Aligned.bytes (h : s.Aligned frame) (f : F) :
    ∃ jobs : List J, (∀ j ∈ jobs, (f, j) ∈ s.calls) ∧ s.bytes f <+: jobs.flatMap frame := by
  obtain ⟨order, -, hcalls, hprefix⟩ := h f
  refine ⟨order.map Prod.snd, fun j hj => ?_, ?_⟩
  · obtain ⟨x, hx, rfl⟩ := List.mem_map.mp hj
    exact List.mem_of_getElem? (hcalls x hx)
  · have hmap : (frames frame order).map Prod.snd = (order.map Prod.snd).flatMap frame := by
      rw [frames, List.map_flatMap, List.flatMap_map]
      exact List.flatMap_congr fun x _ => map_snd_tag x.1 (frame x.2)
    exact hmap ▸ hprefix.map Prod.snd

theorem mem_tag {i : ℕ} {b : Bytes} {x : ℕ × UInt8} (h : x ∈ tag i b) : x.1 = i := by
  obtain ⟨y, -, rfl⟩ := List.mem_map.mp h
  rfl

theorem countP_tag (i : ℕ) (b : Bytes) : (tag i b).countP (fun x => x.1 = i) = b.length := by
  rw [List.countP_eq_length.mpr fun x hx => by simpa using mem_tag hx, tag, List.length_map]

theorem countP_tag_ne {i j : ℕ} (h : i ≠ j) (b : Bytes) :
    (tag i b).countP (fun x => x.1 = j) = 0 :=
  List.countP_eq_zero.mpr fun x hx => by simpa using fun heq => h ((mem_tag hx).symm.trans heq)

theorem countP_frames (frame : J → Bytes) {order : List (ℕ × J)} {j : ℕ}
    (h : j ∉ order.map Prod.fst) :
    (frames frame order).countP (fun x => x.1 = j) = 0 := by
  refine List.countP_eq_zero.mpr fun x hx => ?_
  obtain ⟨y, hy, hx⟩ := List.mem_flatMap.mp hx
  have hne : y.1 ≠ j := fun heq => h (heq ▸ List.mem_map_of_mem hy)
  simpa using fun heq => hne ((mem_tag hx).symm.trans heq)

theorem countP_frames_of_mem {order : List (ℕ × J)} (hnodup : (order.map Prod.fst).Nodup)
    {x : ℕ × J} (hx : x ∈ order) :
    (frames frame order).countP (fun y => y.1 = x.1) = (frame x.2).length := by
  obtain ⟨before, after, rfl⟩ := List.append_of_mem hx
  rw [List.map_append, List.map_cons, List.nodup_middle, List.nodup_cons] at hnodup
  have hout : x.1 ∉ (before ++ after).map Prod.fst := by
    rw [List.map_append]
    exact hnodup.1
  have hsplit : frames frame (before ++ x :: after) =
      frames frame before ++ (tag x.1 (frame x.2) ++ frames frame after) := by
    simp [frames]
  have hbefore : x.1 ∉ before.map Prod.fst := fun h =>
    hout (by rw [List.map_append]; exact List.mem_append_left _ h)
  have hafter : x.1 ∉ after.map Prod.fst := fun h =>
    hout (by rw [List.map_append]; exact List.mem_append_right _ h)
  rw [hsplit, List.countP_append, List.countP_append, countP_frames frame hbefore,
    countP_frames frame hafter, countP_tag]
  omega

/-- Where one call's bytes are followed by another's, its frame is complete. -/
theorem complete_of_followed {order : List (ℕ × J)} (hnodup : (order.map Prod.fst).Nodup)
    {i j : ℕ} (hne : i ≠ j) {x y : UInt8} :
    ∀ {before after : List (ℕ × UInt8)},
      before ++ (j, x) :: (i, y) :: after = frames frame order →
      ∃ job, (j, job) ∈ order ∧
        (before ++ [(j, x)]).countP (fun z => z.1 = j) = (frame job).length := by
  induction order with
  | nil =>
    intro before after h
    have h : before ++ (j, x) :: (i, y) :: after = [] := h
    simp at h
  | cons first order ih =>
    intro before after h
    obtain ⟨k, job⟩ := first
    obtain ⟨hout, hnodup⟩ := List.nodup_cons.mp hnodup
    have h : before ++ (j, x) :: (i, y) :: after = tag k (frame job) ++ frames frame order := h
    have hlater : ∀ {middle : List (ℕ × UInt8)},
        frames frame order = middle ++ (j, x) :: (i, y) :: after →
        before = tag k (frame job) ++ middle →
        ∃ job', (j, job') ∈ (k, job) :: order ∧
          (before ++ [(j, x)]).countP (fun z => z.1 = j) = (frame job').length := by
      intro middle hrest hbefore
      obtain ⟨job', hmem, hcount⟩ := ih hnodup hrest.symm
      have hkj : k ≠ j := by
        rintro rfl
        exact hout (List.mem_map.mpr ⟨_, hmem, rfl⟩)
      refine ⟨job', List.mem_cons_of_mem _ hmem, ?_⟩
      rw [hbefore, List.append_assoc, List.countP_append, countP_tag_ne hkj, hcount, Nat.zero_add]
    rcases List.append_eq_append_iff.mp h with ⟨rest, hfirst, hrest⟩ | ⟨rest, hbefore, hrest⟩
    · cases rest with
      | nil =>
        rw [List.append_nil] at hfirst
        rw [List.nil_append] at hrest
        have hbefore : before = tag k (frame job) ++ [] := by rw [hfirst, List.append_nil]
        exact hlater hrest.symm hbefore
      | cons a rest =>
        rw [List.cons_append, List.cons.injEq] at hrest
        obtain ⟨rfl, hrest⟩ := hrest
        have hmem : (j, x) ∈ tag k (frame job) := hfirst ▸ by simp
        have hjk : j = k := mem_tag hmem
        cases rest with
        | nil =>
          refine ⟨job, by rw [hjk]; exact List.mem_cons_self, ?_⟩
          rw [← hfirst, hjk]
          exact countP_tag k (frame job)
        | cons b rest =>
          -- both bytes would belong to the first frame
          rw [List.cons_append, List.cons.injEq] at hrest
          obtain ⟨rfl, -⟩ := hrest
          have hmem' : (i, y) ∈ tag k (frame job) := hfirst ▸ by simp
          exact absurd ((mem_tag hmem').trans hjk.symm) hne
    · exact hlater hrest hbefore

/-! ### What a run keeps -/

/-- The calls in progress are calls that were made, each by one worker, and none is
complete. -/
structure Sound (frame : J → Bytes) (s : Writers W F J) : Prop where
  called : ∀ w c, s.worker w = some c → s.calls[c.number]? = some (c.stream, c.job)
  running : ∀ w c, s.worker w = some c → c.sent < (frame c.job).length
  distinct : ∀ v w c d, s.worker v = some c → s.worker w = some d → c.number = d.number → v = w

/-- Call `i` is in progress. -/
def Held (worker : W → Option (Writing F J)) (i : ℕ) : Prop :=
  ∃ w c, worker w = some c ∧ c.number = i

/-- What stream `f` has accepted: the frames of the calls `order`, and of the call `part`,
if there is one, a part. -/
structure Whole (frame : J → Bytes) (s : Writers W F J) (f : F) (order : List (ℕ × J))
    (part : Option (Writing F J)) : Prop where
  accepted : s.accepted f = frames frame order ++
    part.elim [] fun c => tag c.number ((frame c.job).take c.sent)
  nodup : (order.map Prod.fst).Nodup
  called : ∀ x ∈ order, s.calls[x.1]? = some (f, x.2)
  partCalled : ∀ c, part = some c → s.calls[c.number]? = some (f, c.job) ∧
    c.number ∉ order.map Prod.fst ∧ 0 < c.sent ∧ c.sent < (frame c.job).length
  /-- A call in progress is not among those that are complete, and it is the one that is
  partly written if it has written anything. -/
  running : ∀ w c, s.worker w = some c → c.stream = f → c.number ∉ order.map Prod.fst ∧
    (0 < c.sent → part = some c) ∧ (c.sent = 0 → ∀ d, part = some d → d.number ≠ c.number)
  torn : s.torn f = true ↔ ∃ c, part = some c ∧ ¬ Held s.worker c.number

theorem Whole.aligned (h : ∀ f, ∃ order part, Whole frame s f order part) : s.Aligned frame := by
  intro f
  obtain ⟨order, part, h⟩ := h f
  cases part with
  | none => exact ⟨order, h.nodup, h.called, by rw [h.accepted]; simp⟩
  | some c =>
    obtain ⟨hcall, hout, -, -⟩ := h.partCalled c rfl
    refine ⟨order ++ [(c.number, c.job)], ?_, ?_, ?_⟩
    · rw [List.map_append, List.nodup_append]
      refine ⟨h.nodup, List.nodup_singleton _, fun a ha b hb => ?_⟩
      rw [List.mem_singleton.mp hb]
      rintro rfl
      exact hout ha
    · intro x hx
      rcases List.mem_append.mp hx with hx | hx
      · exact h.called x hx
      · rw [List.mem_singleton.mp hx]
        exact hcall
    · have hlast : frames frame (order ++ [(c.number, c.job)]) =
          frames frame order ++ tag c.number (frame c.job) := by
        simp [frames]
      rw [h.accepted, hlast, Option.elim_some]
      exact (List.prefix_append_right_inj _).mpr ((List.take_prefix _ _).map _)

/-- A call in progress on another stream is not the one partly written on this one. -/
theorem Whole.other {f : F} {order : List (ℕ × J)} {part : Option (Writing F J)}
    (h : Whole frame s f order part) (hs : s.Sound frame) {w : W} {c d : Writing F J}
    (hc : s.worker w = some c) (hf : c.stream ≠ f) (hd : part = some d) :
    d.number ≠ c.number := by
  intro heq
  have hcalled := hs.called w c hc
  rw [← heq, (h.partCalled d hd).1, Option.some_inj, Prod.mk.injEq] at hcalled
  exact hf hcalled.1.symm

/-- Stream `f` accepts nothing in a step after which the calls in progress there, and the
one partly written, are as they were. -/
theorem Whole.keep {f : F} {order : List (ℕ × J)} {part : Option (Writing F J)}
    (h : Whole frame s f order part) (hcalls : s.calls <+: s'.calls)
    (haccepted : s'.accepted f = s.accepted f)
    (hworker : ∀ v d, s'.worker v = some d → d.stream = f →
      s.worker v = some d ∨ s.calls.length ≤ d.number ∧ d.sent = 0)
    (htorn : s'.torn f = true ↔ ∃ d, part = some d ∧ ¬ Held s'.worker d.number) :
    Whole frame s' f order part := by
  -- calls keep their numbers; a new call has a number not used so far
  have hkeep : ∀ (i : ℕ) (x : F × J), s.calls[i]? = some x → s'.calls[i]? = some x := by
    intro i x hi
    obtain ⟨more, hmore⟩ := hcalls
    rw [← hmore, List.getElem?_append_left (List.getElem?_eq_some_iff.mp hi).1]
    exact hi
  have hlt : ∀ (i : ℕ) (x : F × J), s.calls[i]? = some x → i < s.calls.length := fun i x hi =>
    (List.getElem?_eq_some_iff.mp hi).1
  refine ⟨haccepted.trans h.accepted, h.nodup, fun x hx => hkeep _ _ (h.called x hx), ?_, ?_,
    htorn⟩
  · intro d hd
    obtain ⟨hcalled, hrest⟩ := h.partCalled d hd
    exact ⟨hkeep _ _ hcalled, hrest⟩
  · intro v d hd hf
    rcases hworker v d hd hf with hd | ⟨hnew, hsent⟩
    · exact h.running v d hd hf
    · refine ⟨fun hmem => ?_, fun hpos => by omega, fun _ e he => ?_⟩
      · obtain ⟨x, hx, heq⟩ := List.mem_map.mp hmem
        have hold := hlt _ _ (h.called x hx)
        omega
      · have hold := hlt _ _ (h.partCalled e he).1
        omega

/-- What an undisturbed stream has accepted of the frame that is next. -/
theorem Whole.undisturbed {order : List (ℕ × J)} {part : Option (Writing F J)} {w : W}
    {c : Writing F J} (h : Whole frame s c.stream order part) (hs : s.Sound frame)
    (hc : s.worker w = some c) (htorn : s.torn c.stream = false)
    (hothers : ∀ v d, v ≠ w → s.worker v = some d → d.stream = c.stream → d.sent = 0) :
    s.accepted c.stream = frames frame order ++ tag c.number ((frame c.job).take c.sent) := by
  -- with no frame torn the one in part is being written, and by nobody else
  have hpart : ∀ d, part = some d → part = some c := by
    intro d hd
    have hheld : Held s.worker d.number := by
      by_contra hnot
      have := h.torn.mpr ⟨d, hd, hnot⟩
      rw [htorn] at this
      cases this
    obtain ⟨v, e, he, heq⟩ := hheld
    have hcalled := hs.called v e he
    rw [heq, (h.partCalled d hd).1, Option.some_inj, Prod.mk.injEq] at hcalled
    have hv : v = w := by
      by_contra hv
      exact (h.running v e he hcalled.1.symm).2.2 (hothers v e hv he hcalled.1.symm) d hd heq.symm
    rw [hv, hc, Option.some_inj] at he
    refine (h.running w c hc rfl).2.1 (Nat.pos_of_ne_zero fun hzero => ?_)
    exact (h.running w c hc rfl).2.2 hzero d hd (by rw [he, heq])
  -- either way it is the job of this worker that goes on
  rw [h.accepted]
  cases hp : part with
  | none =>
    have hsent : c.sent = 0 := by
      by_contra hne
      have := (h.running w c hc rfl).2.1 (Nat.pos_of_ne_zero hne)
      rw [hp] at this
      cases this
    rw [hsent, List.take_zero]
    rfl
  | some d =>
    have hd : d = c := by
      have := hpart d hp
      rw [hp, Option.some_inj] at this
      exact this
    rw [hd]
    rfl

/-! ### Steps -/

variable [DecidableEq W]

theorem held_begin {w : W} (hfree : s.worker w = none) (c : Writing F J) {i : ℕ} :
    Held (Function.update s.worker w (some c)) i ↔ i = c.number ∨ Held s.worker i := by
  constructor
  · rintro ⟨v, d, hd, rfl⟩
    by_cases hv : v = w
    · rw [hv, Function.update_self, Option.some_inj] at hd
      exact Or.inl (hd ▸ rfl)
    · rw [Function.update_of_ne hv] at hd
      exact Or.inr ⟨v, d, hd, rfl⟩
  · rintro (rfl | ⟨v, d, hd, rfl⟩)
    · exact ⟨w, c, Function.update_self _ _ _, rfl⟩
    · have hv : v ≠ w := by
        rintro rfl
        rw [hfree] at hd
        cases hd
      exact ⟨v, d, by rw [Function.update_of_ne hv]; exact hd, rfl⟩

theorem Sound.held_end (hs : s.Sound frame) {w : W} {c : Writing F J} (hc : s.worker w = some c)
    {i : ℕ} : Held (Function.update s.worker w none) i ↔ Held s.worker i ∧ i ≠ c.number := by
  constructor
  · rintro ⟨v, d, hd, rfl⟩
    by_cases hv : v = w
    · rw [hv, Function.update_self] at hd
      cases hd
    · rw [Function.update_of_ne hv] at hd
      exact ⟨⟨v, d, hd, rfl⟩, fun heq => hv (hs.distinct v w d c hd hc heq)⟩
  · rintro ⟨⟨v, d, hd, rfl⟩, hne⟩
    have hv : v ≠ w := by
      rintro rfl
      rw [hc, Option.some_inj] at hd
      exact hne (hd ▸ rfl)
    exact ⟨v, d, by rw [Function.update_of_ne hv]; exact hd, rfl⟩

theorem held_keep {w : W} {c d : Writing F J} (hc : s.worker w = some c)
    (hnumber : d.number = c.number) {i : ℕ} :
    Held (Function.update s.worker w (some d)) i ↔ Held s.worker i := by
  constructor
  · rintro ⟨v, e, he, rfl⟩
    by_cases hv : v = w
    · rw [hv, Function.update_self, Option.some_inj] at he
      exact ⟨w, c, hc, by rw [← he, hnumber]⟩
    · rw [Function.update_of_ne hv] at he
      exact ⟨v, e, he, rfl⟩
  · rintro ⟨v, e, he, rfl⟩
    by_cases hv : v = w
    · rw [hv, hc, Option.some_inj] at he
      exact ⟨w, d, Function.update_self _ _ _, by rw [← he, hnumber]⟩
    · exact ⟨v, e, by rw [Function.update_of_ne hv]; exact he, rfl⟩

theorem Sound.call (hframe : ∀ j, frame j ≠ []) (hs : s.Sound frame) (w : W) (f : F) (j : J) :
    Sound frame { s with
      calls := s.calls ++ [(f, j)]
      worker := Function.update s.worker w (some ⟨s.calls.length, f, j, 0⟩) } := by
  have hold : ∀ v c, s.worker v = some c → c.number < s.calls.length := fun v c hc =>
    (List.getElem?_eq_some_iff.mp (hs.called v c hc)).1
  -- either the call just made or an earlier one
  have hcases : ∀ v c, Function.update s.worker w (some ⟨s.calls.length, f, j, 0⟩) v = some c →
      v = w ∧ c = ⟨s.calls.length, f, j, 0⟩ ∨ v ≠ w ∧ s.worker v = some c := by
    intro v c hc
    by_cases hv : v = w
    · rw [hv, Function.update_self, Option.some_inj] at hc
      exact Or.inl ⟨hv, hc.symm⟩
    · rw [Function.update_of_ne hv] at hc
      exact Or.inr ⟨hv, hc⟩
  constructor
  · intro v c hc
    rcases hcases v c hc with ⟨-, rfl⟩ | ⟨-, hc⟩
    · exact List.getElem?_concat_length
    · show (s.calls ++ [(f, j)])[c.number]? = _
      rw [List.getElem?_append_left (hold v c hc)]
      exact hs.called v c hc
  · intro v c hc
    rcases hcases v c hc with ⟨-, rfl⟩ | ⟨-, hc⟩
    · exact List.length_pos_of_ne_nil (hframe j)
    · exact hs.running v c hc
  · intro u v c d hc hd heq
    rcases hcases u c hc with ⟨hu, rfl⟩ | ⟨hu, hc⟩
    · rcases hcases v d hd with ⟨hv, -⟩ | ⟨-, hd⟩
      · exact hu.trans hv.symm
      · have hlt := hold v d hd
        have heq : s.calls.length = d.number := heq
        omega
    · rcases hcases v d hd with ⟨-, rfl⟩ | ⟨-, hd⟩
      · have hlt := hold u c hc
        have heq : c.number = s.calls.length := heq
        omega
      · exact hs.distinct u v c d hc hd heq

variable [DecidableEq F]

theorem Sound.pass (hs : s.Sound frame) {w : W} {c : Writing F J} (hc : s.worker w = some c)
    (result : SendResult) : Sound frame (pass frame s w c result) := by
  -- the call goes on as the same call, or ends; the others are as before
  have hkeep : ∀ run : Option (Writing F J), (∀ d, run = some d → d.number = c.number ∧
      d.stream = c.stream ∧ d.job = c.job ∧ d.sent < (frame c.job).length) →
      ∀ accepted torn,
        Sound frame ⟨s.calls, Function.update s.worker w run, accepted, torn⟩ := by
    intro run hrun accepted torn
    have hcases : ∀ v d, Function.update s.worker w run v = some d →
        ∃ d', s.worker v = some d' ∧ d.number = d'.number ∧ d.stream = d'.stream ∧
          d.job = d'.job ∧ (d.sent < (frame d'.job).length) := by
      intro v d hd
      by_cases hv : v = w
      · rw [hv, Function.update_self] at hd
        exact ⟨c, hv ▸ hc, hrun d hd⟩
      · rw [Function.update_of_ne hv] at hd
        exact ⟨d, hd, rfl, rfl, rfl, hs.running v d hd⟩
    constructor
    · intro v d hd
      obtain ⟨d', hd', hnumber, hstream, hjob, -⟩ := hcases v d hd
      rw [hnumber, hstream, hjob]
      exact hs.called v d' hd'
    · intro v d hd
      obtain ⟨d', -, -, -, hjob, hsent⟩ := hcases v d hd
      rw [hjob]
      exact hsent
    · intro u v d e hd he heq
      obtain ⟨d', hd', hnumber, -⟩ := hcases u d hd
      obtain ⟨e', he', hnumber', -⟩ := hcases v e he
      exact hs.distinct u v d' e' hd' he' (by rw [← hnumber, ← hnumber', heq])
  cases result with
  | again => exact hs
  | error => exact hkeep none (fun d hd => by cases hd) _ _
  | accepted n =>
    refine hkeep _ (fun d hd => ?_) _ _
    by_cases hmore : c.sent + min (n + 1) ((frame c.job).length - c.sent) < (frame c.job).length
    · rw [if_pos hmore, Option.some_inj] at hd
      exact hd ▸ ⟨rfl, rfl, rfl, hmore⟩
    · rw [if_neg hmore] at hd
      cases hd

omit [DecidableEq F] in
theorem Whole.call {f : F} {order : List (ℕ × J)} {part : Option (Writing F J)}
    (h : Whole frame s f order part) {w : W} (hfree : s.worker w = none) (g : F) (j : J) :
    Whole frame { s with
      calls := s.calls ++ [(g, j)]
      worker := Function.update s.worker w (some ⟨s.calls.length, g, j, 0⟩) } f order part := by
  refine h.keep (List.prefix_append _ _) rfl (fun v d hd _ => ?_) ?_
  · by_cases hv : v = w
    · have hd : Function.update s.worker w (some ⟨s.calls.length, g, j, 0⟩) v = some d := hd
      rw [hv, Function.update_self, Option.some_inj] at hd
      exact Or.inr (hd ▸ ⟨Nat.le_refl _, rfl⟩)
    · have hd : Function.update s.worker w (some ⟨s.calls.length, g, j, 0⟩) v = some d := hd
      rw [Function.update_of_ne hv] at hd
      exact Or.inl hd
  · refine h.torn.trans (exists_congr fun d => and_congr_right fun hd => not_congr ?_)
    refine Iff.symm ((held_begin hfree _).trans (or_iff_right ?_))
    have hold := (List.getElem?_eq_some_iff.mp (h.partCalled d hd).1).1
    intro heq
    have heq : d.number = s.calls.length := heq
    omega

omit [DecidableEq F] in
/-- A call ends that has written nothing on stream `f`. -/
theorem Whole.drop {f : F} {order : List (ℕ × J)} {part : Option (Writing F J)}
    (h : Whole frame s f order part) (hs : s.Sound frame) {w : W} {c : Writing F J}
    (hc : s.worker w = some c) (hnot : ∀ d, part = some d → d.number ≠ c.number)
    {accepted : F → List (ℕ × UInt8)} (haccepted : accepted f = s.accepted f) {torn : F → Bool}
    (htorn : torn f = s.torn f) :
    Whole frame ⟨s.calls, Function.update s.worker w none, accepted, torn⟩ f order part := by
  refine h.keep (List.prefix_refl _) haccepted (fun v d hd _ => ?_) ?_
  · by_cases hv : v = w
    · have hd : Function.update s.worker w none v = some d := hd
      rw [hv, Function.update_self] at hd
      cases hd
    · have hd : Function.update s.worker w none v = some d := hd
      rw [Function.update_of_ne hv] at hd
      exact Or.inl hd
  · show torn f = true ↔ _
    rw [htorn]
    refine h.torn.trans (exists_congr fun d => and_congr_right fun hd => not_congr ?_)
    exact ((hs.held_end hc).trans (and_iff_left (hnot d hd))).symm

theorem Whole.error {f : F} {order : List (ℕ × J)} {part : Option (Writing F J)}
    (h : Whole frame s f order part) (hs : s.Sound frame) {w : W} {c : Writing F J}
    (hc : s.worker w = some c) : Whole frame (Writers.pass frame s w c .error) f order part := by
  have hother : (∀ d, part = some d → d.number ≠ c.number) →
      (if 0 < c.sent then Function.update s.torn c.stream true else s.torn) f = s.torn f →
      Whole frame (Writers.pass frame s w c .error) f order part := fun hnot htorn =>
    h.drop hs hc hnot rfl htorn
  by_cases hf : c.stream = f
  · by_cases hsent : 0 < c.sent
    · -- the frame stays as it is, with nobody to complete it
      have hpart := (h.running w c hc hf).2.1 hsent
      refine h.keep (List.prefix_refl _) rfl (fun v d hd _ => ?_) ?_
      · by_cases hv : v = w
        · have hd : Function.update s.worker w none v = some d := hd
          rw [hv, Function.update_self] at hd
          cases hd
        · have hd : Function.update s.worker w none v = some d := hd
          rw [Function.update_of_ne hv] at hd
          exact Or.inl hd
      · have htorn : (Writers.pass frame s w c .error).torn f = true := by
          show (if 0 < c.sent then Function.update s.torn c.stream true else s.torn) f = true
          rw [if_pos hsent, ← hf, Function.update_self]
        refine iff_of_true htorn ⟨c, hpart, fun hheld => ?_⟩
        exact ((hs.held_end hc).mp hheld).2 rfl
    · exact hother ((h.running w c hc hf).2.2 (by omega)) (by rw [if_neg hsent])
  · refine hother (fun d hd => h.other hs hc hf hd) ?_
    by_cases hsent : 0 < c.sent
    · rw [if_pos hsent, Function.update_of_ne (Ne.symm hf)]
    · rw [if_neg hsent]

theorem Whole.acceptedHere {order : List (ℕ × J)} {part : Option (Writing F J)} {w : W}
    {c : Writing F J} (h : Whole frame s c.stream order part) (hs : s.Sound frame)
    (hc : s.worker w = some c) {n : ℕ} (hgood : Event.Undisturbed s (.send w (.accepted n))) :
    ∃ order part, Whole frame (Writers.pass frame s w c (.accepted n)) c.stream order part := by
  obtain ⟨htorn, hothers⟩ := hgood c hc
  have hlt := hs.running w c hc
  have hbefore := h.undisturbed hs hc htorn hothers
  have hout := (h.running w c hc rfl).1
  set count := min (n + 1) ((frame c.job).length - c.sent) with hcount
  -- the stream goes on where this job had got to
  have hsplit : (frame c.job).take c.sent ++ ((frame c.job).drop c.sent).take count =
      (frame c.job).take (c.sent + count) := List.take_add.symm
  have hafter : (Writers.pass frame s w c (.accepted n)).accepted c.stream =
      frames frame order ++ tag c.number ((frame c.job).take (c.sent + count)) := by
    show Function.update s.accepted c.stream _ c.stream = _
    rw [Function.update_self, hbefore, List.append_assoc, ← hsplit]
    exact congrArg (frames frame order ++ ·) (List.map_append ..).symm
  -- the others have not begun, and are other calls
  have hothers' : ∀ v d, v ≠ w → s.worker v = some d → d.stream = c.stream →
      d.sent = 0 ∧ d.number ∉ order.map Prod.fst ∧ d.number ≠ c.number := fun v d hv hd hf =>
    ⟨hothers v d hv hd hf, (h.running v d hd hf).1, fun heq => hv (hs.distinct v w d c hd hc heq)⟩
  have htorn' : ¬ (Writers.pass frame s w c (.accepted n)).torn c.stream = true := by
    show ¬ s.torn c.stream = true
    rw [htorn]
    exact Bool.false_ne_true
  -- either the job stays the one in part, or it is whole now
  by_cases hmore : c.sent + count < (frame c.job).length
  · have hworker : (Writers.pass frame s w c (.accepted n)).worker =
        Function.update s.worker w (some { c with sent := c.sent + count }) := by
      show Function.update s.worker w (if c.sent + count < _ then _ else none) = _
      rw [if_pos hmore]
    refine ⟨order, some { c with sent := c.sent + count }, hafter, h.nodup, h.called, ?_, ?_, ?_⟩
    · intro d hd
      rw [← Option.some_inj.mp hd]
      exact ⟨hs.called w c hc, hout, by show 0 < c.sent + count; omega, hmore⟩
    · intro v d hd hf
      rw [hworker] at hd
      by_cases hv : v = w
      · rw [hv, Function.update_self, Option.some_inj] at hd
        rw [← hd]
        refine ⟨hout, fun _ => rfl, fun hzero => ?_⟩
        have hzero : c.sent + count = 0 := hzero
        omega
      · rw [Function.update_of_ne hv] at hd
        obtain ⟨hsent, hout', hne⟩ := hothers' v d hv hd hf
        refine ⟨hout', fun hpos => by omega, fun _ e he => ?_⟩
        rw [← Option.some_inj.mp he]
        exact hne.symm
    · refine iff_of_false htorn' ?_
      rintro ⟨d, hd, hnot⟩
      rw [← Option.some_inj.mp hd, hworker] at hnot
      exact hnot ⟨w, _, Function.update_self _ _ _, rfl⟩
  · have hworker : (Writers.pass frame s w c (.accepted n)).worker =
        Function.update s.worker w none := by
      show Function.update s.worker w (if c.sent + count < _ then _ else none) = _
      rw [if_neg hmore]
    refine ⟨order ++ [(c.number, c.job)], none, ?_, ?_, ?_, fun d hd => (by cases hd), ?_, ?_⟩
    · have hlast : frames frame (order ++ [(c.number, c.job)]) =
          frames frame order ++ tag c.number (frame c.job) := by
        simp [frames]
      rw [hafter, hlast, List.take_of_length_le (by omega), Option.elim_none, List.append_nil]
    · rw [List.map_append, List.nodup_append]
      refine ⟨h.nodup, List.nodup_singleton _, fun a ha b hb => ?_⟩
      rw [List.mem_singleton.mp hb]
      rintro rfl
      exact hout ha
    · intro x hx
      rcases List.mem_append.mp hx with hx | hx
      · exact h.called x hx
      · rw [List.mem_singleton.mp hx]
        exact hs.called w c hc
    · intro v d hd hf
      rw [hworker] at hd
      by_cases hv : v = w
      · rw [hv, Function.update_self] at hd
        cases hd
      · rw [Function.update_of_ne hv] at hd
        obtain ⟨hsent, hout', hne⟩ := hothers' v d hv hd hf
        refine ⟨?_, fun hpos => by omega, fun _ e he => by cases he⟩
        rw [List.map_append, List.mem_append, not_or]
        exact ⟨hout', fun hmem => hne (List.mem_singleton.mp hmem)⟩
    · refine iff_of_false htorn' ?_
      rintro ⟨d, hd, -⟩
      cases hd

theorem Whole.acceptedElsewhere {f : F} {order : List (ℕ × J)} {part : Option (Writing F J)}
    (h : Whole frame s f order part) (hs : s.Sound frame) {w : W} {c : Writing F J}
    (hc : s.worker w = some c) (hf : c.stream ≠ f) (n : ℕ) :
    Whole frame (Writers.pass frame s w c (.accepted n)) f order part := by
  set count := min (n + 1) ((frame c.job).length - c.sent) with hcount
  have haccepted : (Writers.pass frame s w c (.accepted n)).accepted f = s.accepted f := by
    show Function.update s.accepted c.stream _ f = _
    rw [Function.update_of_ne (Ne.symm hf)]
  -- whether the other job goes on or ends, it is none of this stream's
  by_cases hmore : c.sent + count < (frame c.job).length
  · have hworker : (Writers.pass frame s w c (.accepted n)).worker =
        Function.update s.worker w (some { c with sent := c.sent + count }) := by
      show Function.update s.worker w (if c.sent + count < _ then _ else none) = _
      rw [if_pos hmore]
    refine h.keep (List.prefix_refl _) haccepted (fun v d hd hdf => ?_) ?_
    · rw [hworker] at hd
      by_cases hv : v = w
      · rw [hv, Function.update_self, Option.some_inj] at hd
        exact absurd (by rw [← hdf, ← hd]) hf
      · rw [Function.update_of_ne hv] at hd
        exact Or.inl hd
    · rw [hworker]
      refine h.torn.trans (exists_congr fun d => and_congr_right fun _ => not_congr (Iff.symm ?_))
      exact held_keep hc
        (show ({ c with sent := c.sent + count } : Writing F J).number = _ from rfl)
  · have hend : Writers.pass frame s w c (.accepted n) = ⟨s.calls,
        Function.update s.worker w none, (Writers.pass frame s w c (.accepted n)).accepted,
        s.torn⟩ := by
      show (⟨s.calls, Function.update s.worker w (if c.sent + count < _ then _ else none), _,
        s.torn⟩ : Writers W F J) = _
      rw [if_neg hmore]
      rfl
    rw [hend]
    exact h.drop hs hc (fun d hd => h.other hs hc hf hd) haccepted rfl

/-- **A stream that accepts bytes of a frame while another is begun there and not completed
is no longer aligned.** -/
theorem Whole.torn_apart {order : List (ℕ × J)} {part : Option (Writing F J)} {w : W}
    {c : Writing F J} (h : Whole frame s c.stream order part) (hs : s.Sound frame)
    (hc : s.worker w = some c) {n : ℕ} (hbad : ¬ Event.Undisturbed s (.send w (.accepted n))) :
    ¬ Aligned frame (Writers.pass frame s w c (.accepted n)) := by
  -- the frame that is begun and not completed is another's
  have hpart : ∃ d, part = some d ∧ d.number ≠ c.number := by
    by_contra hnone
    refine hbad fun c' hc' => ?_
    rw [hc, Option.some_inj] at hc'
    subst hc'
    constructor
    · by_contra htorn
      obtain ⟨d, hd, hnot⟩ := h.torn.mp (by simpa using htorn)
      exact hnone ⟨d, hd, fun heq => hnot ⟨w, c, hc, heq.symm⟩⟩
    · intro v d hv hd hf
      by_contra hsent
      have hd' := (h.running v d hd hf).2.1 (Nat.pos_of_ne_zero hsent)
      exact hnone ⟨d, hd', fun heq => hv (hs.distinct v w d c hd hc heq)⟩
  obtain ⟨d, hd, hne⟩ := hpart
  obtain ⟨hcalled, hout, hpos, hsent⟩ := h.partCalled d hd
  have hlt := hs.running w c hc
  intro haligned
  obtain ⟨order', hnodup', hcalls', after, hprefix⟩ := haligned c.stream
  -- the last byte of the one, and the first byte of the other behind it
  have hnonempty : (frame d.job).take d.sent ≠ [] := by
    intro hnil
    have := congrArg List.length hnil
    rw [List.length_take, List.length_nil] at this
    omega
  obtain ⟨init, x, hinit⟩ := (List.eq_nil_or_concat' _).resolve_left hnonempty
  obtain ⟨y, rest, hrest⟩ : ∃ y rest, ((frame c.job).drop c.sent).take
      (min (n + 1) ((frame c.job).length - c.sent)) = y :: rest := by
    cases hlist : ((frame c.job).drop c.sent).take
      (min (n + 1) ((frame c.job).length - c.sent)) with
    | nil =>
      have := congrArg List.length hlist
      rw [List.length_take, List.length_drop, List.length_nil] at this
      omega
    | cons y rest => exact ⟨y, rest, rfl⟩
  have haccepted : (Writers.pass frame s w c (.accepted n)).accepted c.stream =
      frames frame order ++ tag d.number init ++ (d.number, x) :: (c.number, y) ::
        tag c.number rest := by
    show Function.update s.accepted c.stream _ c.stream = _
    rw [Function.update_self, h.accepted, hd, Option.elim_some, hinit, hrest]
    simp [tag]
  have hbytes : frames frame order ++ tag d.number init ++ (d.number, x) :: (c.number, y) ::
      (tag c.number rest ++ after) = frames frame order' := by
    rw [← hprefix, haccepted, List.append_assoc (frames frame order ++ tag d.number init),
      List.cons_append, List.cons_append]
  obtain ⟨job, hjob, hcount⟩ := complete_of_followed hnodup' hne.symm hbytes
  have hsame : job = d.job := by
    have hcall := hcalls' _ hjob
    rw [show (Writers.pass frame s w c (.accepted n)).calls = s.calls from rfl, hcalled,
      Option.some_inj, Prod.mk.injEq] at hcall
    exact hcall.2.symm
  have hwhole : tag d.number init ++ [(d.number, x)] =
      tag d.number ((frame d.job).take d.sent) := by
    rw [hinit]
    simp [tag]
  rw [List.append_assoc, hwhole, List.countP_append, countP_frames frame hout, countP_tag,
    List.length_take, hsame] at hcount
  omega

/-- What holds along a run as long as it is not disturbed. -/
def Orderly (frame : J → Bytes) (s : Writers W F J) : Prop :=
  s.Sound frame ∧ ∀ f, ∃ order part, Whole frame s f order part

omit [DecidableEq W] [DecidableEq F] in
theorem orderly_init : (init W F J).Orderly frame := by
  have hidle : ∀ w c, (init W F J).worker w ≠ some c := fun _ c => (Option.some_ne_none c).symm
  refine ⟨⟨fun w c h => absurd h (hidle w c), fun w c h => absurd h (hidle w c),
    fun v w c d h => absurd h (hidle v c)⟩, fun f => ?_⟩
  refine ⟨[], none, rfl, List.nodup_nil, fun x hx => absurd hx List.not_mem_nil,
    fun c h => absurd h.symm (Option.some_ne_none c), fun w c h => absurd h (hidle w c), ?_⟩
  refine iff_of_false Bool.false_ne_true ?_
  rintro ⟨c, hc, -⟩
  cases hc

theorem Orderly.step (hframe : ∀ j, frame j ≠ []) (hs : s.Orderly frame)
    (hgood : e.Undisturbed s) (hstep : step frame s e = some s') : s'.Orderly frame := by
  obtain ⟨hsound, hwhole⟩ := hs
  cases e with
  | call w g j =>
    cases hw : s.worker w with
    | some c =>
      rw [Writers.step, hw] at hstep
      cases hstep
    | none =>
      rw [Writers.step, hw, Option.some_inj] at hstep
      refine hstep ▸ ⟨hsound.call hframe w g j, fun f => ?_⟩
      obtain ⟨order, part, h⟩ := hwhole f
      exact ⟨order, part, h.call hw g j⟩
  | send w result =>
    rw [Writers.step, Option.map_eq_some_iff] at hstep
    obtain ⟨c, hc, rfl⟩ := hstep
    refine ⟨hsound.pass hc result, fun f => ?_⟩
    obtain ⟨order, part, h⟩ := hwhole f
    cases result with
    | again => exact ⟨order, part, h⟩
    | error => exact ⟨order, part, h.error hsound hc⟩
    | accepted n =>
      by_cases hf : c.stream = f
      · subst hf
        exact h.acceptedHere hsound hc hgood
      · exact ⟨order, part, h.acceptedElsewhere hsound hc hf n⟩

/-- **The streams stay aligned in exactly the undisturbed runs.** -/
theorem aligned_iff_undisturbed (hframe : ∀ j, frame j ≠ []) {es : List (Event W F J)}
    {final : Writers W F J} (hrun : Transition.runFrom (step frame) (init W F J) es = some final) :
    (∀ s, Transition.Visits (step frame) (init W F J) es s → s.Aligned frame) ↔
      ∀ s e, Transition.Takes (step frame) (init W F J) es s e → e.Undisturbed s := by
  refine Transition.visits_iff_takes (J := Orderly frame) (fun s hs => Whole.aligned hs.2)
    (fun s e s' hs hgood hstep => hs.step hframe hgood hstep) ?_ hrun orderly_init
  intro s e s' hs hbad hstep
  cases e with
  | call w g j => exact absurd trivial hbad
  | send w result =>
    cases result with
    | again => exact absurd trivial hbad
    | error => exact absurd trivial hbad
    | accepted n =>
      rw [step, Option.map_eq_some_iff] at hstep
      obtain ⟨c, hc, rfl⟩ := hstep
      obtain ⟨order, part, h⟩ := hs.2 c.stream
      exact h.torn_apart hs.1 hc hbad

/-! ### One worker alone -/

/-- A worker that no other gets in the way of does what `writeAll` does: the stream accepts
what the loop writes, and the worker is free when the loop is over. -/
theorem runFrom_writeAll (frame : J → Bytes) (w : W) (script : List SendResult) :
    ∀ {s : Writers W F J} {c : Writing F J}, s.worker w = some c →
      c.sent < (frame c.job).length →
      ∃ used s', used ++ (writeAll true (frame c.job) (frame c.job).length script c.sent).script =
          script ∧
        Transition.runFrom (step frame) s (used.map (Event.send w)) = some s' ∧
        s'.accepted c.stream = s.accepted c.stream ++ tag c.number
          (writeAll true (frame c.job) (frame c.job).length script c.sent).bytes ∧
        (s'.worker w = none ↔
          (writeAll true (frame c.job) (frame c.job).length script c.sent).outcome ≠ .pending) := by
  induction script with
  | nil =>
    intro s c hc hlt
    rw [writeAll, if_pos hlt]
    refine ⟨[], s, rfl, rfl, (List.append_nil _).symm, iff_of_false ?_ fun h => h rfl⟩
    rw [hc]
    exact Option.some_ne_none c
  | cons result script ih =>
    intro s c hc hlt
    have hstep : step frame s (.send w result) = some (pass frame s w c result) := by
      rw [step, hc, Option.map_some]
    have hrun : ∀ used, Transition.runFrom (step frame) s ((result :: used).map (Event.send w)) =
        Transition.runFrom (step frame) (pass frame s w c result) (used.map (Event.send w)) := by
      intro used
      rw [List.map_cons, Transition.runFrom_cons, hstep, Option.bind_some]
    cases result with
    | again =>
      rw [writeAll, if_pos hlt]
      obtain ⟨used, s', hused, hs', haccepted, hfree⟩ := ih hc hlt
      refine ⟨.again :: used, s', ?_, (hrun used).trans hs', haccepted, hfree⟩
      exact congrArg (SendResult.again :: ·) hused
    | error =>
      rw [writeAll, if_pos hlt]
      refine ⟨[.error], pass frame s w c .error, rfl, hrun [], (List.append_nil _).symm,
        iff_of_true ?_ (by simp)⟩
      exact Function.update_self w none s.worker
    | accepted n =>
      rw [writeAll, if_pos hlt]
      set count := min (n + 1) ((frame c.job).length - c.sent) with hcount
      have haccepted : (pass frame s w c (.accepted n)).accepted c.stream =
          s.accepted c.stream ++ tag c.number (((frame c.job).drop c.sent).take count) :=
        Function.update_self ..
      by_cases hmore : c.sent + count < (frame c.job).length
      · have hworker : (pass frame s w c (.accepted n)).worker w =
            some { c with sent := c.sent + count } := by
          show Function.update s.worker w (if c.sent + count < _ then _ else none) w = _
          rw [Function.update_self, if_pos hmore]
        obtain ⟨used, s', hused, hs', haccepted', hfree⟩ := ih hworker hmore
        refine ⟨.accepted n :: used, s', congrArg (SendResult.accepted n :: ·) hused,
          (hrun used).trans hs', ?_, hfree⟩
        refine haccepted'.trans ?_
        rw [haccepted, List.append_assoc]
        exact congrArg (s.accepted c.stream ++ ·) (List.map_append ..).symm
      · -- the frame is complete
        have hend : c.sent + count = (frame c.job).length := by omega
        have hworker : (pass frame s w c (.accepted n)).worker w = none := by
          show Function.update s.worker w (if c.sent + count < _ then _ else none) w = _
          rw [Function.update_self, if_neg hmore]
        simp only [hend, writeAll_total, List.append_nil]
        exact ⟨[.accepted n], _, rfl, hrun [], haccepted, iff_of_true hworker (by simp)⟩

end Writers

end Socket
