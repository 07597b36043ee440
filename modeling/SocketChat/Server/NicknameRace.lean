/-
Nicknames with several workers.

`NicknameHandler::handle` asks whether a nickname is free and then registers it, in two
critical sections.  Executed one after the other, handlers keep nicknames unique
(`Server.NamesSound.step`).  With several workers they do so as long as no worker registers a
nickname that another one has just found free for another client; once that happens, the
other worker has only to go on for two clients to have the same nickname.
-/
import SocketChat.Server.Discipline
import SocketChat.Server.Nicknames
import SocketChat.Server.ThreadPool

namespace SocketChat

/-- No two clients are registered under the same nickname. -/
def Server.NicknamesUnique (s : Server) : Prop :=
  ∀ fd g nickname, s.clientManager.Holds fd nickname → s.clientManager.Holds g nickname → fd = g

theorem Server.nicknamesUnique_iff {s : Server} :
    s.NicknamesUnique ↔ s.clientManager.reservation.Unique := by
  constructor
  · intro h fd g nickname hfd hg
    exact h fd g nickname (ClientManager.holds_iff.mp hfd) (ClientManager.holds_iff.mp hg)
  · intro h fd g nickname hfd hg
    exact h fd g nickname (ClientManager.holds_iff.mpr hfd) (ClientManager.holds_iff.mpr hg)

/-! ### Calls and nicknames -/

theorem reservation_serve (c : Call) (s : Server)
    (hc : ∀ fd nickname, c ≠ .setNickname fd nickname) :
    (serve c s).2.clientManager.reservation = s.clientManager.reservation := by
  cases c with
  | setNickname fd nickname => exact absurd rfl (hc fd nickname)
  | setRoomCode conn code =>
    rcases serve_setRoomCode_cases conn code s with heq | ⟨client, h, -, heq⟩
    · rw [heq]
    · rw [heq]
      have hholds : s.clientManager.reservation.holds conn.fd = client.name? :=
        ClientManager.holds_of_client h
      exact ClientManager.reservation_setClient hholds
  | _ => rfl

theorem reservation_serve_setNickname (fd : Fd) (nickname : Bytes) (s : Server) :
    (serve (.setNickname fd nickname) s).2.clientManager.reservation =
      if (s.client? fd).isSome then s.clientManager.reservation.take fd nickname
      else s.clientManager.reservation := by
  show (s.clientManager.setNickname fd nickname).reservation = _
  cases h : s.client? fd with
  | none =>
    rw [ClientManager.setNickname_of_not_connected h]
    rfl
  | some client => exact ClientManager.reservation_setNickname h nickname

namespace ThreadPool

variable {json : Nlohmann} {N : ℕ} {t t' : ThreadPool N} {codes : CodeStream}
  {events : List (Event N)}

/-- A worker is about to register a nickname for a connected client, and another worker,
which has found the nickname free, is about to register it for another client. -/
def Races (t : ThreadPool N) : Event N → Prop
  | .act w => ∃ i fd nickname, t.pending w = some (i, .setNickname fd nickname) ∧
      (t.shared.client? fd).isSome = true ∧
      ∃ v j g, g ≠ fd ∧ t.pending v = some (j, .setNickname g nickname)
  | _ => False

/-! ### Runs without races -/

/-- What is left of a handler, if it is about to register a nickname: nobody else has
it. -/
def FoundFree (s : Server) (task : Task) (p : Handler Unit) : Prop :=
  ∃ m, p.Follows (Handler.discipline task.conn.fd (IsRequest task.packet.type)) m ∧
    ∀ fd nickname k, p = .call (.setNickname fd nickname) k →
      ∀ g, g ≠ fd → s.clientManager.reservation.holds g ≠ some nickname

/-- What holds in every state of a run without races. -/
structure NamesSound (t : ThreadPool N) : Prop where
  shared : t.shared.NamesSound
  programs : t.Each FoundFree

/-- A nickname that is about to be registered stays free when no other worker registers it
for another client. -/
theorem FoundFree.keep {s s' : Server} {task : Task} {p : Handler Unit}
    (h : FoundFree s task p)
    (hholds : ∀ fd nickname k, p = .call (.setNickname fd nickname) k → ∀ g, g ≠ fd →
      s'.clientManager.reservation.holds g = some nickname →
      s.clientManager.reservation.holds g = some nickname) : FoundFree s' task p := by
  obtain ⟨m, hfollows, hfree⟩ := h
  exact ⟨m, hfollows, fun fd nickname k hp g hg hold =>
    hfree fd nickname k hp g hg (hholds fd nickname k hp g hg hold)⟩

/-- What a step does to the reservations. -/
theorem reservation_step {e : Event N} (hstep : step json t e = some t') :
    t'.shared.clientManager.reservation = t.shared.clientManager.reservation ∨
      (∃ fd, t'.shared.clientManager.reservation = t.shared.clientManager.reservation.drop fd) ∨
      ∃ w i fd nickname, e = .act w ∧ t.pending w = some (i, .setNickname fd nickname) ∧
        (t.shared.client? fd).isSome = true ∧
        t'.shared.clientManager.reservation =
          t.shared.clientManager.reservation.take fd nickname := by
  cases Pool.step_cases hstep with
  | push => exact Or.inl rfl
  | pop => exact Or.inl rfl
  | finish => exact Or.inl rfl
  | env henv =>
    rcases env_cases henv with ⟨fd, ip, -, -, hnone, rfl⟩ |
      ⟨fd, -, rfl⟩ | ⟨-, -, -, -, -, rfl⟩
    · exact Or.inl (ClientManager.reservation_addClient hnone ip)
    · exact Or.inr (Or.inl ⟨fd, ClientManager.reservation_removeClient _ fd⟩)
    · exact Or.inl rfl
  | @act w i c k hrun =>
    -- one call alone reserves a name
    by_cases hc : ∃ fd nickname, c = .setNickname fd nickname
    · obtain ⟨fd, nickname, rfl⟩ := hc
      have htake := reservation_serve_setNickname fd nickname t.shared
      by_cases hconnected : (t.shared.client? fd).isSome = true
      · rw [if_pos hconnected] at htake
        exact Or.inr (Or.inr ⟨w, i, fd, nickname, rfl, Pool.pending_eq_some.mpr ⟨k, hrun⟩,
          hconnected, htake⟩)
      · rw [if_neg hconnected] at htake
        exact Or.inl htake
    · exact Or.inl (reservation_serve c t.shared fun fd nickname h => hc ⟨fd, nickname, h⟩)

/-- A handler remembers a nickname as free only from a call that has just said so. -/
theorem free_next {fd : Fd} {request : Prop} {m : Handler.Memory} {c : Call} {s : Server}
    {nickname : Bytes}
    (h : ((Handler.discipline fd request).next m c (serve c s).1).free = some nickname) :
    c = .isNicknameTaken nickname ∧ nickname ∉ s.clientManager.nicknames := by
  cases c with
  | isNicknameTaken asked =>
    have h : (if s.clientManager.isNicknameTaken asked then none else some asked) =
      some nickname := h
    by_cases htaken : s.clientManager.isNicknameTaken asked = true
    · rw [if_pos htaken] at h
      cases h
    · rw [if_neg htaken, Option.some_inj] at h
      subst h
      exact ⟨rfl, fun hmem => htaken ((ClientManager.isNicknameTaken_iff _ _).mpr hmem)⟩
  | _ => cases h

theorem NamesSound.step {e : Event N} (ht : t.NamesSound) (hrace : ¬ t.Races e)
    (hstep : step json t e = some t') : t'.NamesSound := by
  refine ⟨?_, ht.programs.step hstep ?_ ?_ ?_⟩
  · rcases reservation_step hstep with hsame | ⟨fd, hdrop⟩ |
      ⟨w, i, fd, nickname, -, hpending, -, htake⟩
    · exact ⟨hsame ▸ ht.shared.unique, hsame ▸ ht.shared.covered⟩
    · exact ⟨hdrop ▸ ht.shared.unique.drop fd, hdrop ▸ ht.shared.covered.drop ht.shared.unique fd⟩
    · -- the worker has found the nickname free, and nobody else has taken it since
      obtain ⟨k, hrun⟩ := Pool.pending_eq_some.mp hpending
      obtain ⟨task, -, m, -, hfree⟩ := ht.programs w i _ hrun
      refine ⟨?_, htake ▸ ht.shared.covered.take fd nickname⟩
      rw [htake]
      exact (Reservation.unique_take_iff ht.shared.unique).mpr (hfree fd nickname k rfl)
  · intro i task _ _
    refine ⟨Handler.Memory.empty, PacketHandler.follows_handle json task.now task.conn.fd
      task.packet, fun fd nickname k hp => ?_⟩
    -- a handler does not start by registering a nickname
    have hfollows := PacketHandler.follows_handle json task.now task.conn.fd task.packet
    have hp : PacketHandler.handle json task.now task.conn.fd task.packet = _ := hp
    rw [hp] at hfollows
    obtain ⟨⟨-, -, -, hempty⟩, -⟩ := hfollows
    cases hempty
  · rintro w i task c k rfl hrun - ⟨m, hfollows, -⟩
    refine ⟨_, hfollows.2 _, fun fd nickname k' hp g hg hold => ?_⟩
    have hrest := hfollows.2 (serve c t.shared).1
    have hp : k (serve c t.shared).1 = _ := hp
    rw [hp] at hrest
    obtain ⟨⟨-, -, -, hfree⟩, -⟩ := hrest
    obtain ⟨rfl, hnot⟩ := free_next hfree
    rcases reservation_step hstep with hsame | ⟨fd', hdrop⟩ |
      ⟨w', i', fd', nickname', he, hpending, -, -⟩
    · rw [hsame] at hold
      exact hnot (ht.shared.covered g nickname hold)
    · rw [hdrop] at hold
      exact hnot (ht.shared.covered g nickname (Reservation.holds_drop.mp hold).2)
    · cases he
      rw [Pool.pending_eq_some.mpr ⟨k, hrun⟩] at hpending
      cases hpending
  · intro v i task p hother hrun _ hfree
    refine hfree.keep fun fd nickname k hp g hg hold => ?_
    subst hp
    rcases reservation_step hstep with hsame | ⟨fd', hdrop⟩ |
      ⟨w, i', fd', nickname', rfl, hpending, hconnected, htake⟩
    · rwa [hsame] at hold
    · rw [hdrop] at hold
      exact (Reservation.holds_drop.mp hold).2
    · rw [htake] at hold
      rcases Reservation.holds_take.mp hold with ⟨rfl, rfl⟩ | ⟨-, hold⟩
      · refine absurd ?_ hrace
        exact ⟨i', g, nickname, hpending, hconnected, v, i, fd, Ne.symm hg,
          Pool.pending_eq_some.mpr ⟨k, hrun⟩⟩
      · exact hold

theorem namesSound_init (N : ℕ) (codes : CodeStream) : (init N codes).NamesSound :=
  ⟨Server.namesSound_init codes, Pool.each_init _ _⟩

/-! ### Runs with a race -/

/-- Descriptors of clients are positive, and handlers keep to the discipline. -/
structure Positive (t : ThreadPool N) : Prop where
  connected : ∀ fd, (t.shared.client? fd).isSome = true → 0 < fd
  received : ∀ task ∈ t.received, 0 < task.conn.fd
  programs : t.Each fun _ task p =>
    ∃ m, p.Follows (Handler.discipline task.conn.fd (IsRequest task.packet.type)) m

theorem Positive.step {e : Event N} (ht : t.Positive) (hstep : step json t e = some t') :
    t'.Positive := by
  refine ⟨?_, ?_, ht.programs.step hstep ?_ ?_ fun _ _ _ _ _ _ _ h => h⟩
  · intro g hg
    cases Pool.step_cases hstep with
    | push => exact ht.connected g hg
    | pop => exact ht.connected g hg
    | finish => exact ht.connected g hg
    | @act w i c k hrun =>
      have hsame := isSome_client?_serve c t.shared g
      exact ht.connected g (hsame ▸ hg)
    | env henv =>
      rcases env_cases henv with ⟨fd, ip, -, hfd, -, rfl⟩ |
      ⟨fd, -, rfl⟩ | ⟨-, -, -, -, -, rfl⟩
      · have hg : ((t.shared.clientManager.addClient fd ip).getClient g).isSome = true := hg
        rw [ClientManager.getClient_addClient] at hg
        by_cases heq : g = fd
        · exact heq ▸ hfd
        · rw [if_neg heq] at hg
          exact ht.connected g hg
      · have hg : ((t.shared.clientManager.removeClient fd).getClient g).isSome = true := hg
        rw [ClientManager.getClient_removeClient] at hg
        by_cases heq : g = fd
        · rw [if_pos heq] at hg
          cases hg
        · rw [if_neg heq] at hg
          exact ht.connected g hg
      · exact ht.connected g hg
  · intro task htask
    cases Pool.step_cases hstep with
    | @push new hadmits =>
      rcases List.mem_append.mp htask with hold | hnew
      · exact ht.received task hold
      · obtain rfl := List.mem_singleton.mp hnew
        exact ht.connected task.conn.fd (of_decide_eq_true hadmits).1
    | _ => exact ht.received task htask
  · intro i task _ _
    exact ⟨_, PacketHandler.follows_handle json task.now task.conn.fd task.packet⟩
  · rintro w i task c k - - - ⟨m, hfollows⟩
    exact ⟨_, hfollows.2 _⟩

theorem positive_init (N : ℕ) (codes : CodeStream) : (init N codes).Positive := by
  refine ⟨fun fd hfd => ?_, fun task htask => ?_, Pool.each_init _ _⟩
  · have hnone : (init N codes).shared.client? fd = none := Server.client?_init codes fd
    rw [hnone] at hfd
    cases hfd
  · cases htask

/-- A registration: the nickname is held afterwards, the other workers stay as they
are. -/
theorem act_setNickname {w : Fin N} {i : ℕ} {fd : Fd} {nickname : Bytes}
    (hw : t.pending w = some (i, .setNickname fd nickname))
    (hfd : (t.shared.client? fd).isSome = true) :
    ∃ t', step json t (.act w) = some t' ∧ (∀ v, v ≠ w → t'.pending v = t.pending v) ∧
      t'.shared.clientManager.reservation =
        t.shared.clientManager.reservation.take fd nickname := by
  obtain ⟨k, hrun⟩ := Pool.pending_eq_some.mp hw
  refine ⟨_, Pool.step_act hrun, fun v hvw => ?_, ?_⟩
  · simp only [Pool.pending, Function.update_of_ne hvw]
  · have htake := reservation_serve_setNickname fd nickname t.shared
    rwa [if_pos hfd] at htake

/-- Connecting a client changes neither the workers nor the reservations. -/
theorem env_accept {g : Fd} (hg : 0 < g) (hnone : t.shared.client? g = none) (ip : Bytes) :
    ∃ t', step json t (.env (.accept g ip true)) = some t' ∧
      (t'.shared.client? g).isSome = true ∧ (∀ v, t'.pending v = t.pending v) ∧
      t'.shared.clientManager.reservation = t.shared.clientManager.reservation := by
  have hshared : (Server.system json).env t.shared (.accept g ip true) =
      some (ConnectionManager.acceptNewConnection t.shared g ip true) := if_pos hnone
  refine ⟨{ t with shared := ConnectionManager.acceptNewConnection t.shared g ip true }, ?_, ?_,
    fun v => rfl, ?_⟩
  · rw [step, Pool.step, hshared, Option.map_some]
  · rw [ConnectionManager.acceptNewConnection, if_pos ⟨hg, rfl⟩]
    show ((t.shared.clientManager.addClient g ip).getClient g).isSome = true
    rw [ClientManager.getClient_addClient, if_pos rfl]
    rfl
  · show (ConnectionManager.acceptNewConnection t.shared g ip true).clientManager.reservation = _
    rw [ConnectionManager.acceptNewConnection, if_pos ⟨hg, rfl⟩]
    exact ClientManager.reservation_addClient hnone ip

/-- A race can be continued to a state in which two clients have one nickname: at once if
the second client is still connected, else as soon as its descriptor is in use again. -/
theorem not_unique_of_races {e : Event N} (ht : t.Positive) (hrace : t.Races e) :
    ∃ events' t', Transition.runFrom (step json) t (e :: events') = some t' ∧
      ¬ t'.shared.NicknamesUnique := by
  cases e with
  | act w =>
    obtain ⟨i, fd, nickname, hw, hfd, v, j, g, hne, hv⟩ := hrace
    have hvw : v ≠ w := fun heq => by
      rw [heq, hw] at hv
      cases hv
      exact hne rfl
    obtain ⟨t₁, hact, hothers, htake⟩ :=
      (act_setNickname hw hfd : ∃ t', step json t (.act w) = some t' ∧ _)
    have hpos₁ : t₁.Positive := ht.step hact
    have hv₁ : t₁.pending v = some (j, .setNickname g nickname) := (hothers v hvw).trans hv
    have hfd₁ : t₁.shared.clientManager.reservation.holds fd = some nickname :=
      htake ▸ Reservation.holds_take.mpr (Or.inl ⟨rfl, rfl⟩)
    -- client `g` is connected, or its descriptor is accepted again
    obtain ⟨events', t₂, hrun, hg, hv₂, hfd₂⟩ : ∃ events' t₂,
        Transition.runFrom (step json) t₁ events' = some t₂ ∧
        (t₂.shared.client? g).isSome = true ∧
        t₂.pending v = some (j, .setNickname g nickname) ∧
        t₂.shared.clientManager.reservation.holds fd = some nickname := by
      cases hg : t₁.shared.client? g with
      | some client => exact ⟨[], t₁, rfl, by rw [hg]; rfl, hv₁, hfd₁⟩
      | none =>
        obtain ⟨k, hrun⟩ := Pool.pending_eq_some.mp hv₁
        obtain ⟨task, htask, m, hfollows⟩ := hpos₁.programs v j _ hrun
        obtain ⟨⟨-, -, rfl, -⟩, -⟩ := hfollows
        have hgpos := hpos₁.received task (List.mem_of_getElem? htask)
        obtain ⟨t₂, haccept, hconnected, hsame, hreservation⟩ :=
          (env_accept hgpos hg [] : ∃ t', step json t₁ (.env (.accept _ [] true)) = some t' ∧ _)
        refine ⟨[.env (.accept task.conn.fd [] true)], t₂, ?_, hconnected, (hsame v).trans hv₁,
          hreservation ▸ hfd₁⟩
        rw [Transition.runFrom_cons, haccept]
        rfl
    obtain ⟨t₃, hact', -, htake'⟩ :=
      (act_setNickname hv₂ hg : ∃ t', step json t₂ (.act v) = some t' ∧ _)
    refine ⟨events' ++ [.act v], t₃, ?_, fun hunique => ?_⟩
    · rw [Transition.runFrom_cons, hact, Option.bind_some, Transition.runFrom_append, hrun,
        Option.bind_some, Transition.runFrom_cons, hact']
      rfl
    · have hunique' := Server.nicknamesUnique_iff.mp hunique
      rw [htake'] at hunique'
      exact hne (hunique' g fd nickname (Reservation.holds_take.mpr (Or.inl ⟨rfl, rfl⟩))
        (Reservation.holds_take.mpr (Or.inr ⟨Ne.symm hne, hfd₂⟩)))
  | _ => exact hrace.elim

/-- Along a run without races nicknames are unique. -/
theorem visits_namesSound (hrun : Transition.runFrom (step json) (init N codes) events = some t)
    (hgood : ∀ u e, Transition.Takes (step json) (init N codes) events u e → ¬ u.Races e)
    {u : ThreadPool N} (hu : Transition.Visits (step json) (init N codes) events u) :
    u.NamesSound :=
  Transition.Visits.invariant (G := fun u e => ¬ u.Races e)
    (fun _ _ _ hu hrace hstep => hu.step hrace hstep) hrun (namesSound_init N codes) hgood u hu

/-- **Nicknames are unique exactly as long as no registration races another.**  In a run
without races no state has two clients with one nickname, and where a step races, the run
can be continued from it to such a state. -/
theorem nicknamesUnique_of_no_race (json : Nlohmann) (N : ℕ) (codes : CodeStream)
    (events : List (Event N)) (t : ThreadPool N)
    (hrun : Transition.runFrom (step json) (init N codes) events = some t) :
    ((∀ u e, Transition.Takes (step json) (init N codes) events u e → ¬ u.Races e) →
      ∀ u, Transition.Visits (step json) (init N codes) events u → u.shared.NicknamesUnique) ∧
    ∀ e, t.Races e → ∃ events' t',
      Transition.runFrom (step json) (init N codes) (events ++ e :: events') = some t' ∧
      ¬ t'.shared.NicknamesUnique := by
  constructor
  · intro hgood u hu
    exact Server.nicknamesUnique_iff.mpr (visits_namesSound hrun hgood hu).shared.unique
  · intro e hrace
    have hpos : t.Positive :=
      Transition.runFrom_always (J := Positive) (fun _ _ _ hu hstep => hu.step hstep) hrun
        (positive_init N codes)
    obtain ⟨events', t', hrun', hnot⟩ := not_unique_of_races hpos hrace
    refine ⟨events', t', ?_, hnot⟩
    rw [Transition.runFrom_append, hrun, Option.bind_some, hrun']

/-- Clients 5 and 6 ask for the nickname `ann`, and 5 has it before 6's request is looked at. -/
def oneRefused (v w : Fin N) : List (Event N) :=
  [.env (.accept 5 (str "10.0.0.1") true), .env (.accept 6 (str "10.0.0.2") true),
    .push (annTask 5), .push (annTask 6), .pop v, .pop w, .act v, .act v, .act w]

/-- No other worker is about to register the nickname this one registers. -/
def registersAlone (t : ThreadPool N) : Event N → Bool
  | .act w =>
    match t.pending w with
    | some (_, .setNickname fd nickname) => decide (∀ v : Fin N,
        (t.pending v).all fun x => match x.2 with
          | .setNickname g other => decide (g = fd ∨ other ≠ nickname)
          | _ => true)
    | _ => true
  | _ => true

theorem not_races_of_registersAlone {e : Event N} (h : t.registersAlone e = true) :
    ¬ t.Races e := by
  intro hrace
  match e with
  | .act w =>
    obtain ⟨i, fd, nickname, hw, -, v, j, g, hne, hv⟩ := hrace
    rw [registersAlone, hw] at h
    have hv' := of_decide_eq_true h v
    rw [hv] at hv'
    rcases of_decide_eq_true hv' with heq | hother
    · exact hne heq
    · exact hother rfl

/-- When 6 is refused only 5 is called `ann`; when both have found the name free, the first
to register it races. -/
theorem nicknamesUnique_of_no_race_ann :
    (∃ t, Transition.Visits (step Nlohmann.integral) (init 2 CodeStream.inOrder)
        (oneRefused 0 1) t ∧ t.shared.clientManager.Holds 5 (str "ann") ∧
      t.pending 1 = some (1, .send 6 duplicatedNickname) ∧ t.shared.NicknamesUnique) ∧
    ∃ t events' t',
      Transition.runFrom (step Nlohmann.integral) (init 2 CodeStream.inOrder) bothFree = some t ∧
      t.Races (.act 0) ∧
      Transition.runFrom (step Nlohmann.integral) (init 2 CodeStream.inOrder)
        (bothFree ++ .act 0 :: events') = some t' ∧ ¬ t'.shared.NicknamesUnique := by
  have halone : Transition.checkSteps (step Nlohmann.integral) registersAlone
      (init 2 CodeStream.inOrder) (oneRefused 0 1) = true := by
    decide +kernel
  have hrefused : (Transition.runFrom (step Nlohmann.integral) (init 2 CodeStream.inOrder)
      (oneRefused 0 1)).any (fun t => decide (
        (t.shared.client? 5).bind ClientInfo.name? = some (str "ann") ∧
        t.pending 1 = some (1, .send 6 duplicatedNickname))) = true := by
    decide +kernel
  have hboth : (Transition.runFrom (step Nlohmann.integral) (init 2 CodeStream.inOrder)
      bothFree).any (fun t => decide (t.pending 0 = some (0, .setNickname 5 (str "ann")) ∧
        t.pending 1 = some (1, .setNickname 6 (str "ann")) ∧
        (t.shared.client? 5).isSome = true)) = true := by
    decide +kernel
  constructor
  · obtain ⟨t, hrun, ht⟩ := (Option.any_eq_true _ _).mp hrefused
    obtain ⟨hholds, hpending⟩ := of_decide_eq_true ht
    have hvisits := Transition.Visits.last hrun
    exact ⟨t, hvisits, ClientManager.holds_iff.mp hholds, hpending,
      (nicknamesUnique_of_no_race Nlohmann.integral 2 CodeStream.inOrder (oneRefused 0 1) t
        hrun).1 (fun u e hu => not_races_of_registersAlone (hu.of_checkSteps halone)) t hvisits⟩
  · obtain ⟨t, hrun, ht⟩ := (Option.any_eq_true _ _).mp hboth
    obtain ⟨hfirst, hsecond, hconnected⟩ := of_decide_eq_true ht
    have hrace : t.Races (.act 0) :=
      ⟨0, 5, str "ann", hfirst, hconnected, 1, 1, 6, by decide, hsecond⟩
    obtain ⟨events', t', hrun', hnot⟩ := (nicknamesUnique_of_no_race Nlohmann.integral 2
      CodeStream.inOrder bothFree t hrun).2 (.act 0) hrace
    exact ⟨t, events', t', hrun, hrace, hrun', hnot⟩

/-- Both workers go on, and both clients are called `ann`. -/
theorem not_nicknamesUnique : ∃ t,
    Transition.Visits (step Nlohmann.integral) (init 2 CodeStream.inOrder)
      (bothFree ++ [.act 0, .act 1]) t ∧
    t.shared.clientManager.Holds 5 (str "ann") ∧ t.shared.clientManager.Holds 6 (str "ann") ∧
    ¬ t.shared.NicknamesUnique := by
  have hrun : (Transition.runFrom (step Nlohmann.integral) (init 2 CodeStream.inOrder)
      (bothFree ++ [.act 0, .act 1])).any (fun t =>
        decide ((t.shared.client? 5).bind ClientInfo.name? = some (str "ann") ∧
          (t.shared.client? 6).bind ClientInfo.name? = some (str "ann"))) = true := by
    decide +kernel
  obtain ⟨t, hvisits, ht⟩ := Transition.Visits.of_any hrun
  obtain ⟨hfive, hsix⟩ := of_decide_eq_true ht
  have hfive := ClientManager.holds_iff.mp hfive
  have hsix := ClientManager.holds_iff.mp hsix
  exact ⟨t, hvisits, hfive, hsix, fun h => absurd (h 5 6 _ hfive hsix) (by decide)⟩

/-- With a single worker nicknames are unique. -/
theorem nicknamesUnique_of_one_worker {t : ThreadPool 1} {events : List (Event 1)}
    (hrun : Transition.runFrom (step json) (init 1 codes) events = some t) :
    t.shared.NicknamesUnique := by
  have hgood : ∀ u e, Transition.Takes (step json) (init 1 codes) events u e → ¬ u.Races e := by
    intro u e _ hrace
    cases e with
    | act w =>
      obtain ⟨i, fd, nickname, hw, -, v, j, g, hne, hv⟩ := hrace
      -- both registrations would be the worker's next call
      rw [Subsingleton.elim v w, hw] at hv
      cases hv
      exact hne rfl
    | _ => exact hrace
  exact Server.nicknamesUnique_iff.mpr
    (visits_namesSound hrun hgood (Transition.Visits.last hrun)).shared.unique

end ThreadPool

end SocketChat
