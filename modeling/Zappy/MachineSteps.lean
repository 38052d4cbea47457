import Zappy.Network
import Zappy.Ownership

/-!
# The game inside the machine

What each step of the machine does: `MachineMove` lists the ways, and `machineStep_server` says that the state of
the game takes a run of steps of the game, in which commands and logins come from the connection that is heard on
their descriptor.  What holds along every run of the game therefore holds along every run of the machine.
-/

namespace Zappy

open Run

variable {cfg : Config} {m m' : Machine} {act : MachineAction} {s : Server}

/-! ### Messages -/

/-- The team that a message asks to join. -/
def ClientMessage.joins (msg : ClientMessage) : Option String :=
  if msg.type = some "login" ∧ msg.key = some serverKey ∧ msg.role = some "player" then msg.teamName else none

/-- How a message received on `conn` is handled; the reports about it are sent last. -/
inductive Outcome (cfg : Config) (s : Server) (conn : Conn) (fd : Fd) (draw : StartDraw)
    (text : Option ClientMessage) : Server → Prop
  | ignored : Outcome cfg s conn fd draw text s
  | command {msg : ClientMessage} {cmd : String} (htext : text = some msg) (htype : msg.type = some "cmd") :
      Outcome cfg s conn fd draw text (gameExecuteCommand cfg s conn fd cmd msg.arg).2
  | login {msg : ClientMessage} {teamName : String} {s₁ : Server} (n : Int) (htext : text = some msg)
      (htype : msg.type = some "login") (hjoin : msg.joins = some teamName)
      (hreg : gameRegisterPlayer cfg s conn fd teamName draw = (.success, s₁)) :
      Outcome cfg s conn fd draw text (s₁.send fd (welcome s₁ n))
  | report {s₁ : Server} (h : Outcome cfg s conn fd draw text s₁) (type : String) (about : String)
      (htype : type = "error" ∨ type = "ok" ∨ type = "ko") :
      Outcome cfg s conn fd draw text (s₁.createJsonResponse fd type about none)

private theorem handleLoginClient_outcome {s₁ : Server} {conn : Conn} {fd : Fd} {msg : ClientMessage} {draw : StartDraw}
    {ret : Ret} (htype : msg.type = some "login") (hjoin : msg.joins = msg.teamName)
    (h : handleLoginClient cfg s conn fd msg draw = some (ret, s₁)) : Outcome cfg s conn fd draw (some msg) s₁ := by
  unfold handleLoginClient at h
  split at h
  · cases h
    exact .report .ignored "error" _ (Or.inl rfl)
  · rename_i teamName hteam
    split at h
    · rename_i s₂ hreg
      cases h
      have hsame := gameRegisterPlayer_error (congrArg Prod.fst hreg)
      rw [hreg] at hsame
      obtain rfl : s₂ = s := hsame
      exact .report .ignored "error" _ (Or.inl rfl)
    · rename_i s₂ hreg
      rw [Option.map_eq_some_iff] at h
      obtain ⟨n, -, h⟩ := h
      cases h
      exact .login n rfl htype (hjoin.trans hteam) hreg

private theorem handleLogin_outcome {s₁ : Server} {conn : Conn} {fd : Fd} {msg : ClientMessage} {draw : StartDraw}
    {ret : Ret} (htype : msg.type = some "login") (h : handleLogin cfg s conn fd msg draw = some (ret, s₁)) :
    Outcome cfg s conn fd draw (some msg) s₁ := by
  unfold handleLogin at h
  split at h
  · cases h
    exact .ignored
  · rename_i key hkey
    split at h
    · cases h
      exact .report .ignored "error" _ (Or.inl rfl)
    · rename_i hright
      rw [not_not] at hright
      split at h
      · cases h
        exact .report .ignored "error" _ (Or.inl rfl)
      · rename_i hrole
        exact handleLoginClient_outcome htype (by rw [ClientMessage.joins, if_pos ⟨htype, hright ▸ hkey, hrole⟩]) h
      · cases h
        exact .report .ignored "ko" _ (Or.inr (Or.inr rfl))
      · cases h
        exact .report .ignored "ok" _ (Or.inr (Or.inl rfl))
      · cases h
        exact .report .ignored "error" _ (Or.inl rfl)

theorem handleClientMessage_outcome {s₁ : Server} {conn : Conn} {fd : Fd} {draw : StartDraw}
    {text : Option ClientMessage} {ret : Ret} (h : handleClientMessage cfg s conn fd draw text = some (ret, s₁)) :
    Outcome cfg s conn fd draw text s₁ := by
  unfold handleClientMessage at h
  split at h
  · cases h
    exact .ignored
  · rename_i msg
    dsimp only at h
    -- an error is reported after the handler
    have hreport : ∀ {result : Option (Ret × Server)} {report : Ret × Server → Ret × Server},
        (∀ s₂, report (.error, s₂) =
          (.error, s₂.createJsonResponse fd "error" "Failed to handle message" none)) →
        (∀ s₂, report (.success, s₂) = (.success, s₂)) →
        (∀ ret s₂, result = some (ret, s₂) → Outcome cfg s conn fd draw (some msg) s₂) →
        result.map report = some (ret, s₁) → Outcome cfg s conn fd draw (some msg) s₁ := by
      intro result report herror hsuccess hresult hret
      rw [Option.map_eq_some_iff] at hret
      obtain ⟨⟨ret₂, s₂⟩, hs₂, hret⟩ := hret
      cases ret₂ with
      | error =>
        rw [herror] at hret
        cases hret
        exact .report (hresult _ _ hs₂) "error" _ (Or.inl rfl)
      | success =>
        rw [hsuccess] at hret
        cases hret
        exact hresult _ _ hs₂
    split at h
    · cases h
      exact .report .ignored "error" _ (Or.inl rfl)
    · rename_i htype
      refine hreport (fun _ => rfl) (fun _ => rfl) (fun ret s₂ hcmd => ?_) h
      rw [Option.some.injEq, handleCmd] at hcmd
      split at hcmd
      · cases hcmd
        exact .ignored
      · rename_i cmd _
        have hrun : Outcome cfg s conn fd draw (some msg) (gameExecuteCommand cfg s conn fd cmd msg.arg).2 :=
          .command rfl htype
        rwa [hcmd] at hrun
    · rename_i htype
      exact hreport (fun _ => rfl) (fun _ => rfl) (fun ret s₂ hlogin => handleLogin_outcome htype hlogin) h
    · cases h
      exact .report .ignored "error" _ (Or.inl rfl)

/-- What a message received on `conn` may do to the game. -/
inductive Handled (cfg : Config) (s : Server) (conn : Conn) (fd : Fd) (draw : StartDraw)
    (text : Option ClientMessage) : Server → Prop
  | ignored (outbox : List (Fd × Json)) : Handled cfg s conn fd draw text { s with outbox := outbox }
  | command (cmd : String) (arg : Option String) (outbox : List (Fd × Json)) :
      Handled cfg s conn fd draw text { (gameExecuteCommand cfg s conn fd cmd arg).2 with outbox := outbox }
  | login (teamName : String) (outbox : List (Fd × Json)) (hjoin : text.bind ClientMessage.joins = some teamName) :
      Handled cfg s conn fd draw text { (gameRegisterPlayer cfg s conn fd teamName draw).2 with outbox := outbox }

theorem Handled.send {s₁ : Server} {conn : Conn} {fd : Fd} {draw : StartDraw} {text : Option ClientMessage}
    (h : Handled cfg s conn fd draw text s₁) (fd' : Fd) (j : Json) :
    Handled cfg s conn fd draw text (s₁.send fd' j) := by
  cases h with
  | ignored => exact .ignored _
  | command cmd arg => exact .command cmd arg _
  | login teamName _ hjoin => exact .login teamName _ hjoin

theorem Outcome.handled {s₁ : Server} {conn : Conn} {fd : Fd} {draw : StartDraw} {text : Option ClientMessage}
    (h : Outcome cfg s conn fd draw text s₁) : Handled cfg s conn fd draw text s₁ := by
  induction h with
  | ignored => exact .ignored _
  | @command msg cmd => exact .command cmd msg.arg _
  | @login msg teamName s₁ n htext htype hjoin hreg =>
    have hlogin : Handled cfg s conn fd draw text (gameRegisterPlayer cfg s conn fd teamName draw).2 :=
      .login teamName _ (by rw [htext]; exact hjoin)
    rw [hreg] at hlogin
    exact hlogin.send _ _
  | report _ type about _ ih => exact ih.send _ _

theorem handleClientMessage_handled {s₁ : Server} {conn : Conn} {fd : Fd} {draw : StartDraw}
    {text : Option ClientMessage} {ret : Ret} (h : handleClientMessage cfg s conn fd draw text = some (ret, s₁)) :
    Handled cfg s conn fd draw text s₁ := (handleClientMessage_outcome h).handled

/-! ### Moves -/

theorem update_none_some {owner : Fd → Option Conn} {fd fd' : Fd} {conn : Conn}
    (h : Function.update owner fd' none fd = some conn) : owner fd = some conn := by
  rw [Function.update_apply] at h
  split at h
  · cases h
  · exact h

/-- What each step of the machine does. -/
inductive MachineMove (cfg : Config) (m : Machine) : MachineAction → Machine → Prop
  | tick (t : Nat) (hphase : m.phase = .lookup ∨ m.phase = .play 0) :
      MachineMove cfg m (.tick t) { m with server := { m.server with now := t } }
  | handshakeReady {fd : Fd} {rest : List Fd} {k : Conn} (hq : m.handshakes = fd :: rest)
      (howner : m.owner fd = some k) :
      MachineMove cfg m (.handshake true) { m with handshakes := rest, finished := pushTask m.finished (fd, k) }
  | handshakeFailed {fd : Fd} {rest : List Fd} {k : Conn} (hq : m.handshakes = fd :: rest)
      (howner : m.owner fd = some k) :
      MachineMove cfg m (.handshake false) ({ m with handshakes := rest }.closeFd fd)
  | handshakeLost {fd : Fd} {rest : List Fd} {ok : Bool} (hq : m.handshakes = fd :: rest)
      (howner : m.owner fd = none) : MachineMove cfg m (.handshake ok) { m with handshakes := rest }
  | welcomed {fd : Fd} {k : Conn} {rest : List (Fd × Conn)} (hphase : m.phase = .lookup)
      (hq : m.finished = (fd, k) :: rest) (howner : m.owner fd = some k) :
      MachineMove cfg m (.handshakeDone true)
        ({ m with finished := rest, session := Function.update m.session fd (some k) }.onAcceptSuccess fd)
  | refused {fd : Fd} {k : Conn} {rest : List (Fd × Conn)} {ok : Bool} (hphase : m.phase = .lookup)
      (hq : m.finished = (fd, k) :: rest) :
      MachineMove cfg m (.handshakeDone ok)
        ({ m with finished := rest, session := Function.update m.session fd (some k) }.closeFd fd)
  | lookupEnd (hphase : m.phase = .lookup) (hq : m.finished = []) :
      MachineMove cfg m .lookupEnd { m with phase := .select }
  | idle (hphase : m.phase = .select) : MachineMove cfg m (.select []) { m with phase := .play 0 }
  | select {ready : List Fd} (hphase : m.phase = .select) (hready : ready ≠ []) :
      MachineMove cfg m (.select ready) { m with phase := .scan ready }
  | acceptFailed {fd : Fd} {rest : List Fd} (hphase : m.phase = .scan (fd :: rest)) :
      MachineMove cfg m .acceptFailed { m with phase := .scan rest }
  | accept {fd new : Fd} {rest : List Fd} (hphase : m.phase = .scan (fd :: rest)) (hclosed : m.owner new = none) :
      MachineMove cfg m (.accept new)
        { m with
          phase := .scan rest
          owner := Function.update m.owner new (some m.nextConn)
          handshakes := pushTask m.handshakes new
          nextConn := m.nextConn + 1 }
  | hangUp {fd : Fd} {rest : List Fd} {input : Input} {draw : StartDraw} (hphase : m.phase = .scan (fd :: rest)) :
      MachineMove cfg m (.receive input draw) ({ m with phase := .scan rest }.removeClient fd)
  | message {fd : Fd} {rest : List Fd} {text : Option ClientMessage} {draw : StartDraw} {k : Conn} {s₁ : Server}
      (hphase : m.phase = .scan (fd :: rest)) (hheard : m.heard fd = some k)
      (hmsg : handleClientMessage cfg m.server k fd draw text = some (.success, s₁)) :
      MachineMove cfg m (.receive (.text text) draw) { m with phase := .scan rest, server := s₁ }.deliver
  | misbehaved {fd : Fd} {rest : List Fd} {text : Option ClientMessage} {draw : StartDraw} {k : Conn} {s₁ : Server}
      (hphase : m.phase = .scan (fd :: rest)) (hheard : m.heard fd = some k)
      (hmsg : handleClientMessage cfg m.server k fd draw text = some (.error, s₁)) :
      MachineMove cfg m (.receive (.text text) draw)
        ({ m with phase := .scan rest, server := s₁ }.deliver.removeClient fd)
  | scanEnd (hphase : m.phase = .scan []) :
      MachineMove cfg m .scanEnd
        { m with phase := .drain (drainOrder m.server.removeList), server := { m.server with removeList := [] } }
  | remove {fd : Fd} {k : Conn} {rest : List (Fd × Conn)} (hphase : m.phase = .drain ((fd, k) :: rest)) :
      MachineMove cfg m .remove ({ m with phase := .drain rest }.removeClient fd)
  | drainEnd (hphase : m.phase = .drain []) : MachineMove cfg m .drainEnd { m with phase := .play 0 }
  | playSlot {chance : Chance} {i : Nat} {s₁ : Server} (hphase : m.phase = .play i) (hi : i < m.server.clients.length)
      (hplay : gamePlaySlot cfg chance m.server i = some s₁) :
      MachineMove cfg m (.playSlot chance) { m with server := s₁, phase := .play (i + 1) }.deliver
  | playServer {chance : Chance} {s₁ : Server} (hphase : m.phase = .play m.server.clients.length)
      (hplay : processServer cfg chance m.server = some s₁) :
      MachineMove cfg m (.playServer chance) { m with server := s₁, phase := .lookup }.deliver

theorem machineStep_move (h : machineStep cfg m act = some m') : MachineMove cfg m act m' := by
  cases act with
  | tick t =>
    simp only [machineStep] at h
    split at h
    · rename_i hok; cases h; exact .tick t hok.1
    · cases h
  | handshake ok =>
    simp only [machineStep, Machine.handshakeWorker] at h
    split at h
    · cases h
    · rename_i fd rest hq
      split at h
      · rename_i k howner
        cases ok with
        | true => cases h; exact .handshakeReady hq howner
        | false => cases h; exact .handshakeFailed hq howner
      · rename_i howner
        cases h; exact .handshakeLost hq howner
  | handshakeDone ok =>
    simp only [machineStep] at h
    split at h
    · rename_i fd k rest hphase hq
      cases h
      unfold Machine.onHandshakeDone
      dsimp only
      split
      · rename_i hok
        obtain ⟨rfl, howner⟩ := hok
        exact .welcomed hphase hq howner
      · exact .refused hphase hq
    · cases h
  | lookupEnd =>
    simp only [machineStep] at h
    split at h
    · rename_i hok; cases h; exact .lookupEnd hok.1 hok.2
    · cases h
  | select ready =>
    simp only [machineStep] at h
    split at h
    · rename_i hok
      cases h
      by_cases hready : ready = []
      · subst hready; exact .idle hok.1
      · rw [if_neg hready]; exact .select hok.1 hready
    · cases h
  | acceptFailed =>
    simp only [machineStep] at h
    split at h
    · rename_i hphase
      split at h
      · cases h; exact .acceptFailed hphase
      · cases h
    · cases h
  | accept new =>
    simp only [machineStep, Machine.handleNewClient] at h
    split at h
    · rename_i hphase
      split at h
      · split at h
        · rename_i hclosed; cases h; exact .accept hphase hclosed
        · cases h
      · cases h
    · cases h
  | receive input draw =>
    simp only [machineStep] at h
    split at h
    · rename_i hphase
      split at h
      · cases h
      · unfold Machine.handleClientEvent at h
        split at h
        · rename_i hheard
          rw [Option.map_eq_some_iff] at h
          obtain ⟨⟨ret, s₁⟩, hmsg, h⟩ := h
          cases ret with
          | error => cases h; exact .misbehaved hphase hheard hmsg
          | success => cases h; exact .message hphase hheard hmsg
        · cases h; exact .hangUp hphase
    · cases h
  | scanEnd =>
    simp only [machineStep] at h
    split at h
    · rename_i hphase; cases h; exact .scanEnd hphase
    · cases h
  | remove =>
    simp only [machineStep] at h
    split at h
    · rename_i hphase; cases h; exact .remove hphase
    · cases h
  | drainEnd =>
    simp only [machineStep] at h
    split at h
    · rename_i hphase; cases h; exact .drainEnd hphase
    · cases h
  | playSlot chance =>
    simp only [machineStep] at h
    split at h
    · rename_i i hphase
      split at h
      · rename_i hi
        rw [Option.map_eq_some_iff] at h
        obtain ⟨s₁, hplay, rfl⟩ := h
        exact .playSlot hphase hi hplay
      · cases h
    · cases h
  | playServer chance =>
    simp only [machineStep] at h
    split at h
    · rename_i i hphase
      split at h
      · rename_i hi
        rw [Option.map_eq_some_iff] at h
        obtain ⟨s₁, hplay, rfl⟩ := h
        exact .playServer (hi ▸ hphase) hplay
      · cases h
    · cases h

/-- A connection gets a descriptor by `accept` only. -/
theorem MachineMove.owner (h : MachineMove cfg m act m') {fd : Fd} {conn : Conn} (hown : m'.owner fd = some conn) :
    m.owner fd = some conn ∨ (act = .accept fd ∧ conn = m.nextConn ∧ m.owner fd = none) := by
  cases h with
  | accept hphase hclosed =>
    simp only [Function.update_apply] at hown
    split at hown
    · rename_i hfd
      subst hfd
      exact Or.inr ⟨rfl, (Option.some.inj hown).symm, hclosed⟩
    · exact Or.inl hown
  | handshakeFailed | refused | hangUp | misbehaved | remove => exact Or.inl (update_none_some hown)
  | _ => exact Or.inl hown

/-! ### Steps of the game -/

/-- Who sends a command or a login, and on which descriptor. -/
def GameAction.sender : GameAction → Option (Conn × Fd)
  | .register conn fd _ _ => some (conn, fd)
  | .execute conn fd _ _ => some (conn, fd)
  | _ => none

/-- Steps that are no command, no login and no turn. -/
def GameAction.silent : GameAction → Bool
  | .register _ _ _ _ | .execute _ _ _ _ | .playSlot _ _ => false
  | _ => true

/-- A message that is heard and joins a team comes on a descriptor that no live client holds. -/
def Machine.LoginOnce (m : Machine) : MachineAction → Prop
  | .receive (.text (some msg)) _ => ∀ fd rest teamName, m.phase = .scan (fd :: rest) → (m.heard fd).isSome →
      msg.joins = some teamName → MayJoin m.server teamName → ¬ FdHeld m.server fd
  | _ => True

/-- What the step `act` of the machine lets the step `a` of the game be. -/
structure Inside (m : Machine) (act : MachineAction) (s : Server) (a : GameAction) : Prop where
  heard : ∀ conn fd, a.sender = some (conn, fd) → m.heard fd = some conn
  login : m.LoginOnce act → LoginOnce s a
  turn : ∀ chance i, a = .playSlot chance i → act = .playSlot chance

private theorem Inside.of_silent {a : GameAction} (h : a.silent = true) : Inside m act s a := by
  cases a with
  | register | execute | playSlot => cases h
  | _ => exact ⟨fun _ _ hsender => (by cases hsender), fun _ => trivial, fun _ _ hturn => (by cases hturn)⟩

/-- A run of the game from the state of `m` to another, inside the step `act`. -/
def GameRun (cfg : Config) (m : Machine) (act : MachineAction) (s : Server) : Prop :=
  ∃ as, run (gameStep cfg) m.server as = some s ∧ Guarded (gameStep cfg) (Inside m act) m.server as

theorem GameRun.refl : GameRun cfg m act m.server := ⟨[], rfl, trivial⟩

theorem GameRun.snoc {s₁ : Server} (h : GameRun cfg m act s) {a : GameAction} (hin : Inside m act s a)
    (hstep : gameStep cfg s a = some s₁) : GameRun cfg m act s₁ := by
  obtain ⟨as, hrun, hG⟩ := h
  refine ⟨as ++ [a], by rw [run_append, hrun]; simp [run, hstep], hG.append hrun ?_⟩
  exact fun _ _ => ⟨hin, trivial⟩

theorem GameRun.silent {s₁ : Server} (h : GameRun cfg m act s) (a : GameAction) (hsilent : a.silent = true)
    (hstep : gameStep cfg s a = some s₁) : GameRun cfg m act s₁ :=
  h.snoc (.of_silent hsilent) hstep

theorem GameRun.handled {s₁ : Server} {fd : Fd} {rest : List Fd} {text : Option ClientMessage} {draw : StartDraw}
    {k : Conn} (hphase : m.phase = .scan (fd :: rest)) (hheard : m.heard fd = some k)
    (h : Handled cfg m.server k fd draw text s₁) :
    GameRun cfg m (.receive (.text text) draw) { s₁ with outbox := [] } := by
  cases h with
  | ignored => exact .silent .refl .flush rfl rfl
  | command cmd arg =>
    refine .silent (.snoc .refl (a := .execute k fd cmd arg) ⟨?_, fun _ => trivial, by simp⟩ rfl) .flush rfl rfl
    intro conn fd' hsender
    cases hsender
    exact hheard
  | login teamName _ hjoin =>
    obtain ⟨msg, rfl, hjoin⟩ := Option.bind_eq_some_iff.1 hjoin
    refine .silent (.snoc .refl (a := .register k fd teamName draw) ⟨?_, fun hL => ?_, by simp⟩ rfl) .flush rfl rfl
    · intro conn fd' hsender
      cases hsender
      exact hheard
    · exact hL fd rest teamName hphase (by rw [hheard]; rfl) hjoin

/-- The state of the game takes a run of steps of the game. -/
theorem machineStep_server (h : machineStep cfg m act = some m') : GameRun cfg m act m'.server := by
  cases machineStep_move h with
  | tick t => exact .silent .refl (.tick t) rfl rfl
  | @welcomed fd =>
    have haccepted : GameRun cfg m (.handshakeDone true) { m.server with maxFd := max m.server.maxFd fd } :=
      .silent .refl (.accepted fd) rfl rfl
    exact .silent haccepted .flush rfl rfl
  | @hangUp fd => exact .silent .refl (.kill fd) rfl rfl
  | message hphase hheard hmsg => exact .handled hphase hheard (handleClientMessage_handled hmsg)
  | @misbehaved fd _ _ _ _ _ hphase hheard hmsg =>
    exact .silent (.handled hphase hheard (handleClientMessage_handled hmsg)) (.kill fd) rfl rfl
  | scanEnd hphase => exact .silent .refl .takeRemovals rfl rfl
  | @remove fd => exact .silent .refl (.kill fd) rfl rfl
  | @playSlot chance i s₁ hphase hi hplay =>
    have hturn : GameRun cfg m (.playSlot chance) s₁ := by
      refine .snoc .refl (a := .playSlot chance i) ⟨by simp [GameAction.sender], fun _ => trivial, ?_⟩ hplay
      rintro _ _ ⟨⟩
      rfl
    exact .silent hturn .flush rfl rfl
  | @playServer chance s₁ hphase hplay =>
    have hturn : GameRun cfg m (.playServer chance) s₁ := .silent .refl (.playServer chance) rfl hplay
    exact .silent hturn .flush rfl rfl
  | _ => exact .refl

/-- What every step of the game keeps, every step of the machine keeps. -/
theorem GameRun.invariant {I : Server → Prop}
    (hI : ∀ s a s', gameStep cfg s a = some s' → Inside m act s a → I s → I s') (h : GameRun cfg m act s)
    (h₀ : I m.server) : I s := by
  obtain ⟨as, hrun, hG⟩ := h
  exact hG.invariant hI hrun h₀

theorem GameRun.buffersWF (h : GameRun cfg m act s) (hwf : BuffersWF m.server) : BuffersWF s :=
  h.invariant (I := BuffersWF) (fun _ _ _ hstep _ hwf =>
    (gameStep_invariant (I := fun _ => True) (fun _ _ _ _ _ _ => trivial) hwf trivial hstep).1) hwf

theorem GameRun.registered (h : GameRun cfg m act s) (hwf : BuffersWF m.server) (hreg : Registered m.server) :
    Registered s :=
  (h.invariant (I := fun s => BuffersWF s ∧ Registered s) (fun _ _ _ hstep _ hI =>
    gameStep_invariant (I := Registered) (fun _ _ _ he _ h => he.registered h) hI.1 hI.2 hstep) ⟨hwf, hreg⟩).2

/-- The same, of steps between states whose buffers and tables are in order. -/
theorem GameRun.registered_invariant {I : Server → Prop} (hI : ∀ s a s', gameStep cfg s a = some s' →
    Inside m act s a → BuffersWF s → Registered s → I s → I s') (h : GameRun cfg m act s) (hwf : BuffersWF m.server)
    (hreg : Registered m.server) (h₀ : I m.server) : I s := by
  refine (h.invariant (I := fun s => BuffersWF s ∧ Registered s ∧ I s) (fun s a s' hstep hin hs => ?_)
    ⟨hwf, hreg, h₀⟩).2.2
  obtain ⟨hwf, hreg, hs⟩ := hs
  obtain ⟨hwf', hreg'⟩ := gameStep_invariant (I := Registered) (fun _ _ _ he _ h => he.registered h) hwf hreg hstep
  exact ⟨hwf', hreg', hI s a s' hstep hin hwf hreg hs⟩

/-- What every elementary write keeps holds in every state that a run of the machine reaches. -/
theorem machine_invariant {I : Server → Prop}
    (hI : ∀ a s s', Effect cfg a s s' → BuffersWF s → I s → I s') (hwf : BuffersWF m.server) (h₀ : I m.server)
    {as : List MachineAction} (h : run (machineStep cfg) m as = some m') : BuffersWF m'.server ∧ I m'.server := by
  refine Guarded.invariant (G := fun _ _ => True) (I := fun m => BuffersWF m.server ∧ I m.server)
    (fun m act m' hstep _ hm => ?_) (AllSteps.of_forall fun _ _ _ _ => trivial) h ⟨hwf, h₀⟩
  exact (machineStep_server hstep).invariant (I := fun s => BuffersWF s ∧ I s)
    (fun s a s' hstep _ hs => gameStep_invariant hI hs.1 hs.2 hstep) hm

/-- Buffers and tables stay in order along every run of the machine. -/
theorem registered_of_machine_run {width height : Nat} {teams : List String} {nbClients : Nat}
    {counts : Nat → InventoryType → Nat} {as : List MachineAction}
    (h : run (machineStep cfg) (machineInit cfg width height teams nbClients counts) as = some m) :
    BuffersWF m.server ∧ Registered m.server :=
  machine_invariant (fun _ _ _ he _ hI => he.registered hI) (buffersWF_init _ _ _) (registered_init _ _ _ _ _) h

/-! ### Passes -/

/-- One pass of `main_loop` over the descriptors `ready`, with what happens on them, `n` removals, and the turns of
two slots. -/
def scanPass (ready : List Fd) (events : List MachineAction) (n : Nat) : List MachineAction :=
  [.lookupEnd, .select ready] ++ events ++ [.scanEnd] ++ List.replicate n .remove ++
    [.drainEnd, .playSlot {}, .playSlot {}, .playServer {}]

/-- A handshake that succeeds. -/
def handshakePass : List MachineAction := [.handshake true, .handshakeDone true]

def loginMessage : Input :=
  .text (some { type := "login", key := serverKey, role := "player", teamName := "red" })

/-- A connection on `fd` logs in. -/
def enters (fd : Fd) : List MachineAction :=
  scanPass [3] [.accept fd] 0 ++ handshakePass ++ scanPass [fd] [.receive loginMessage ⟨0, 0, 0⟩] 0

def shippedMachine : Machine := machineInit shippedConfig 1 1 ["red"] 2 fun _ _ => 0

end Zappy
