import Mathlib.Data.List.ProdSigma
import Mathlib.Logic.Function.Basic
import Ducktape.Sdk.Types

/-! # Relayed handshakes

Members that share no direct link run their handshake through a third one, which carries each signed
message of the pair on: it keeps the latest stage it saw for an ordered pair in a slot, fans a message
that fills the slot out at once, and re-offers the slot on every nudge until the message expires.

A slot is keyed by the pair and superseded by stage alone, whatever epoch the message was signed for.
So an old epoch's acknowledgment, replayed, keeps the messages of the current epoch out
(`replayed_ack_blocks`); where no other epoch's message of the pair comes in, a delivered message is
carried and re-offered until it expires (`relays_until_expiry`). -/

namespace Ducktape.Netstack

/-- A validator's identity: its node key. -/
abbrev Identity := Bytes

inductive HandshakeStage
  | request
  | response
  | ack
  deriving DecidableEq

/-- The order of the stages. -/
def HandshakeStage.rank : HandshakeStage → Nat
  | .request => 0
  | .response => 1
  | .ack => 2

/-- A message of the triple: the fields a relay reads, the other signed fields, and the signature. -/
structure Handshake where
  stage : HandshakeStage
  epoch : Nat
  initiator : Identity
  responder : Identity
  expiresAtView : Nat
  body : Bytes
  signature : Bytes
  deriving DecidableEq

/-- A message of the channel; a relay does not look into gossip. -/
inductive ReachabilityMsg
  | gossip (body : Bytes)
  | handshake (msg : Handshake)
  deriving DecidableEq

namespace Handshake

variable (m : Handshake)

def pair : Identity × Identity := (m.initiator, m.responder)

/-- Whose signature the message carries. -/
def signer : Identity :=
  match m.stage with
  | .request | .ack => m.initiator
  | .response => m.responder

/-- Whom the message is for. -/
def addressee : Identity :=
  match m.stage with
  | .request | .ack => m.responder
  | .response => m.initiator

end Handshake

inductive Role
  | member
  | standby
  deriving DecidableEq

/-- How far the epoch has come. -/
inductive Phase
  | records
  | adverts
  | handshakes
  | applied
  | failed
  deriving DecidableEq

structure RelaySlot where
  stage : HandshakeStage
  signer : Identity
  msg : Handshake
  expiresAtView : Nat

/-- The slot a message fills. -/
def Handshake.slot (m : Handshake) : RelaySlot :=
  ⟨m.stage, m.signer, m, m.expiresAtView⟩

/-- What of an epoch's state the relay path reads and writes. -/
structure EpochState where
  epoch : Nat
  role : Role
  phase : Phase
  /-- The epoch's member set. -/
  set : List Identity
  /-- The other members. -/
  peers : List Identity
  /-- Members and standbys: the identities with a known key. -/
  participants : List Identity
  relayed : Identity × Identity → Option RelaySlot

/-- What the node does for its host. -/
inductive Effect
  | meshSend (peer : Identity) (msg : Handshake)
  | peerFailed (peer : Identity) (reason : String)
  deriving DecidableEq

inductive RelayVerdict
  | carry
  | nonMemberPair
  | drop
  deriving DecidableEq

/-- The node: its identity, the lobby key gossip may come in under, and the signature check. -/
structure Driver where
  me : Identity
  gossipIngress : Option Identity
  verifySignature : Handshake → Bool

/-- The node's state: the consensus view it has seen, and its epoch. -/
structure Machine where
  view : Nat
  epoch : EpochState

/-- What happens to the node. Everything that leaves the relay path alone (gossip, its own handshakes,
resolutions, interface pushes) shows here as the phase it brings the epoch to. -/
inductive Event
  | deliver (via : Identity) (msg : Except String ReachabilityMsg)
  | viewTick (view : Nat)
  | nudge
  | advance (phase : Phase)

section Relay

variable (D : Driver) (state : EpochState) (view : Nat)

/-- Slot a foreign handshake message by its ordered pair, with stage supersession. -/
def EpochState.slotRelay (relayed : Handshake) : RelayVerdict × EpochState :=
  if ¬ (relayed.initiator ∈ state.set ∧ relayed.responder ∈ state.set) then (.nonMemberPair, state)
  else if relayed.expiresAtView < view then (.drop, state)
  else if (state.relayed relayed.pair).any (relayed.stage.rank ≤ ·.stage.rank) then (.drop, state)
  else (.carry, { state with relayed := Function.update state.relayed relayed.pair (some relayed.slot) })

/-- Forget every slot whose message expired before `view`. -/
def EpochState.expireRelays : EpochState :=
  { state with relayed := fun pair => (state.relayed pair).filter (view ≤ ·.expiresAtView) }

/-- Blame a peer, if its key is known. -/
def failPeer (peer : Identity) (reason : String) : List Effect :=
  if peer ∈ state.participants then [.peerFailed peer reason] else []

/-- Carry a message between two other members: verify, slot, and fan out to every peer but the one it
came from and its signer. -/
def relay (via : Identity) (relayed : Handshake) : EpochState × List Effect :=
  if D.verifySignature relayed then
    match state.slotRelay view relayed with
    | (.nonMemberPair, state) =>
      (state, failPeer state via "relayed a handshake for a non-member pair")
    | (.drop, state) => (state, [])
    | (.carry, state) =>
      (state, (state.peers.filter fun peer => peer ≠ via ∧ peer ≠ relayed.signer).map
        (.meshSend · relayed))
  else (state, failPeer state via "relayed an unverifiable handshake message")

/-- Route one delivered message. -/
def deliver (via : Identity) (msg : Except String ReachabilityMsg) : EpochState × List Effect :=
  if via ∉ state.participants ∧ D.gossipIngress ≠ some via then
    (state, [.peerFailed via "reachability traffic from a non-participant"])
  else
    match msg with
    | .error text => (state, [.peerFailed via s!"undecodable reachability message: {text}"])
    | .ok (.gossip _) => (state, [])
    | .ok (.handshake m) =>
      match state.role with
      | .standby => (state, [])
      | .member =>
        -- what is for this node, or from it, is not relayed
        if m.addressee = D.me ∨ m.signer = D.me then (state, [])
        else relay D state view via m

/-- The slots, re-offered to every peer but the signer: only in the phases of the handshakes. Only
pairs of members are ever slotted. -/
def EpochState.relayReoffers : List Effect :=
  match state.role, state.phase with
  | .member, .handshakes | .member, .applied =>
    ((state.set.product state.set).filterMap state.relayed).flatMap fun slot =>
      (state.peers.filter (· ≠ slot.signer)).map (.meshSend · slot.msg)
  | _, _ => []

/-- One event. -/
def step (s : Machine) : Event → Machine × List Effect
  | .deliver via msg =>
    let delivered := deliver D s.epoch s.view via msg
    (⟨s.view, delivered.1⟩, delivered.2)
  | .viewTick view => (⟨max s.view view, s.epoch⟩, [])
  | .nudge =>
    let state := s.epoch.expireRelays s.view
    (⟨s.view, state⟩, state.relayReoffers)
  | .advance phase => (⟨s.view, { s.epoch with phase := phase }⟩, [])

def run (s : Machine) (events : List Event) : Machine :=
  events.foldl (fun s event => (step D s event).1) s

variable {D} {s : Machine} {pair : Identity × Identity} {e : Nat} {stage : HandshakeStage}
  {event : Event} {slot : RelaySlot} {via : Identity} {m : Handshake}

/-! ## What an event does to a slot -/

/-- The node is delivered, by a participant, a verified message between two other members that has not
expired. -/
structure Foreign (D : Driver) (s : Machine) (via : Identity) (m : Handshake) : Prop where
  participant : via ∈ s.epoch.participants ∨ D.gossipIngress = some via
  member : s.epoch.role = .member
  verified : D.verifySignature m
  bystander : ¬ (m.addressee = D.me ∨ m.signer = D.me)
  members : m.initiator ∈ s.epoch.set ∧ m.responder ∈ s.epoch.set
  live : s.view ≤ m.expiresAtView

/-- A foreign message past the stage of its pair's slot fills the slot and is fanned out. -/
theorem Foreign.fills (foreign : Foreign D s via m)
    (later : ∀ slot, s.epoch.relayed m.pair = some slot → slot.stage.rank < m.stage.rank) :
    deliver D s.epoch s.view via (.ok (.handshake m)) =
      ({ s.epoch with relayed := Function.update s.epoch.relayed m.pair (some m.slot) },
        (s.epoch.peers.filter fun peer => peer ≠ via ∧ peer ≠ m.signer).map (.meshSend · m)) := by
  have admitted : ¬ (via ∉ s.epoch.participants ∧ D.gossipIngress ≠ some via) :=
    fun out => foreign.participant.elim out.1 out.2
  have slottable : ¬ (s.epoch.relayed m.pair).any (m.stage.rank ≤ ·.stage.rank) := by
    cases held : s.epoch.relayed m.pair with
    | none => simp
    | some slot => simpa using later slot held
  simp only [deliver, if_neg admitted, foreign.member, if_neg foreign.bystander, relay, foreign.verified,
    if_true, EpochState.slotRelay, foreign.members, and_self, not_true_eq_false, if_false,
    Nat.not_lt.mpr foreign.live, if_neg slottable]

/-- Every other delivery leaves the epoch alone. -/
theorem deliver_cases (D : Driver) (s : Machine) (via : Identity) (msg : Except String ReachabilityMsg) :
    (deliver D s.epoch s.view via msg).1 = s.epoch ∨ ∃ m, msg = .ok (.handshake m) ∧ Foreign D s via m ∧
      ∀ slot, s.epoch.relayed m.pair = some slot → slot.stage.rank < m.stage.rank := by
  unfold deliver
  split
  · exact .inl rfl
  split
  · exact .inl rfl
  · exact .inl rfl
  rename_i m
  split
  · exact .inl rfl
  rename_i member
  split
  · exact .inl rfl
  rename_i bystander
  unfold relay EpochState.slotRelay
  split
  · rename_i verified
    by_cases members : m.initiator ∈ s.epoch.set ∧ m.responder ∈ s.epoch.set
    · by_cases expired : m.expiresAtView < s.view
      · simp [members, expired]
      by_cases carried : (s.epoch.relayed m.pair).any (m.stage.rank ≤ ·.stage.rank)
      · simp [members, carried]
      refine .inr ⟨m, rfl, ⟨by tauto, member, verified, bystander, members, Nat.not_lt.mp expired⟩, ?_⟩
      intro slot held
      simpa [held] using carried
    · simp [members]
  · exact .inl rfl

/-- A slot stays, is dropped as expired by a nudge, or takes a verified message of a later stage. -/
theorem step_slot (D : Driver) (s : Machine) (event : Event) (pair : Identity × Identity) :
    (step D s event).1.epoch.relayed pair = s.epoch.relayed pair ∨
    event = .nudge ∧ (step D s event).1.epoch.relayed pair
      = (s.epoch.relayed pair).filter (s.view ≤ ·.expiresAtView) ∨
    ∃ via m, event = .deliver via (.ok (.handshake m)) ∧ D.verifySignature m ∧ m.pair = pair ∧
      (∀ slot, s.epoch.relayed pair = some slot → slot.stage.rank < m.stage.rank) ∧
      (step D s event).1.epoch.relayed pair = some m.slot := by
  cases event with
  | deliver via msg =>
    rcases deliver_cases D s via msg with same | ⟨m, rfl, foreign, later⟩
    · exact .inl (by simp [step, same])
    by_cases mine : m.pair = pair
    · subst mine
      exact .inr (.inr ⟨via, m, rfl, foreign.verified, rfl, later, by simp [step, foreign.fills later]⟩)
    · exact .inl (by simp [step, foreign.fills later, Function.update_of_ne (Ne.symm mine)])
  | nudge => exact .inr (.inl ⟨rfl, rfl⟩)
  | viewTick _ | advance _ => exact .inl rfl

/-- An event changes neither the role nor the members of an epoch, and the phase only as it says. -/
theorem step_frame (D : Driver) (s : Machine) (event : Event) :
    (step D s event).1.epoch.role = s.epoch.role ∧ (step D s event).1.epoch.set = s.epoch.set ∧
    ((step D s event).1.epoch.phase = s.epoch.phase ∨
      event = .advance (step D s event).1.epoch.phase) := by
  cases event with
  | deliver via msg =>
    rcases deliver_cases D s via msg with same | ⟨m, rfl, foreign, later⟩
    · simp [step, same]
    · simp [step, foreign.fills later]
  | viewTick _ | nudge => exact ⟨rfl, rfl, .inl rfl⟩
  | advance phase => exact ⟨rfl, rfl, .inr rfl⟩

/-! ## Carrying on -/

/-- The event brings in no message of the pair from another epoch. -/
def Event.Of (D : Driver) (pair : Identity × Identity) (e : Nat) : Event → Prop
  | .deliver _ (.ok (.handshake m)) => D.verifySignature m → m.pair = pair → m.epoch = e
  | _ => True

/-- The epoch is in its handshakes, or past them. -/
def Phase.Shaking (phase : Phase) : Prop := phase = .handshakes ∨ phase = .applied

/-- The slot holds a message of the pair, of epoch `e`, at the stage or a later one. -/
def Carries (s : Machine) (pair : Identity × Identity) (e : Nat) (stage : HandshakeStage)
    (slot : RelaySlot) : Prop :=
  s.epoch.relayed pair = some slot ∧ slot.msg.epoch = e ∧ stage.rank ≤ slot.stage.rank

/-- Along the events the node holds such a message, and re-offers it on every nudge to every peer but
its signer, until the one it holds has expired. -/
def KeepsOffering (D : Driver) (pair : Identity × Identity) (e : Nat) (stage : HandshakeStage) :
    Machine → List Event → Prop
  | s, [] => ∃ slot, Carries s pair e stage slot
  | s, event :: events => ∃ slot, Carries s pair e stage slot ∧ (slot.expiresAtView < s.view ∨
      (event = .nudge → ∀ peer ∈ s.epoch.peers, peer ≠ slot.signer →
        .meshSend peer slot.msg ∈ (step D s event).2) ∧
      KeepsOffering D pair e stage (step D s event).1 events)

/-- An event of the epoch keeps the slot to it, and to its stage unless it has expired. -/
theorem step_carries (of : event.Of D pair e) (carries : Carries s pair e stage slot)
    (live : s.view ≤ slot.expiresAtView) : ∃ slot, Carries (step D s event).1 pair e stage slot := by
  obtain ⟨held, current, reached⟩ := carries
  rcases step_slot D s event pair with same | ⟨-, same⟩ | ⟨via, m, rfl, verified, mine, later, filled⟩
  · exact ⟨slot, same.trans held, current, reached⟩
  · exact ⟨slot, by simp [same, held, live], current, reached⟩
  · exact ⟨m.slot, filled, of verified mine, Nat.le_trans reached (Nat.le_of_lt (later slot held))⟩

/-- Events of the epoch keep other epochs' messages out of the slot. -/
theorem run_current (events : List Event) (of : ∀ event ∈ events, event.Of D pair e)
    (current : ∀ slot, s.epoch.relayed pair = some slot → slot.msg.epoch = e) :
    ∀ slot, (run D s events).epoch.relayed pair = some slot → slot.msg.epoch = e := by
  induction events generalizing s with
  | nil => exact current
  | cons event events ih =>
    refine ih (fun event mem => of event (.tail _ mem)) fun slot held => ?_
    rcases step_slot D s event pair with same | ⟨-, same⟩ | ⟨via, m, rfl, verified, mine, -, filled⟩
    · exact current slot (same.symm.trans held)
    · rw [same] at held
      exact current slot (Option.mem_filter_iff.mp held).1
    · obtain rfl : m.slot = slot := Option.some.inj (filled.symm.trans held)
      exact of _ (.head _) verified mine

/-- A nudge re-offers a slot that has not expired. -/
theorem nudge_reoffers (member : s.epoch.role = .member) (shaking : s.epoch.phase.Shaking)
    (mem : pair.1 ∈ s.epoch.set ∧ pair.2 ∈ s.epoch.set) (held : s.epoch.relayed pair = some slot)
    (live : s.view ≤ slot.expiresAtView) {peer : Identity} (peers : peer ∈ s.epoch.peers)
    (other : peer ≠ slot.signer) : .meshSend peer slot.msg ∈ (step D s .nudge).2 := by
  have offered : slot ∈ (s.epoch.set.product s.epoch.set).filterMap
      (s.epoch.expireRelays s.view).relayed :=
    List.mem_filterMap.mpr ⟨pair, List.mem_product.mpr mem, by simp [EpochState.expireRelays, held, live]⟩
  have sent : .meshSend peer slot.msg ∈ (s.epoch.peers.filter (· ≠ slot.signer)).map
      (Effect.meshSend · slot.msg) := List.mem_map.mpr ⟨peer, by simp [peers, other], rfl⟩
  rcases shaking with phase | phase <;>
  · simp only [step, EpochState.expireRelays, member, phase]
    exact List.mem_flatMap.mpr ⟨slot, offered, sent⟩

theorem keepsOffering (stage : HandshakeStage) (events : List Event)
    (of : ∀ event ∈ events, event.Of D pair e)
    (shakes : ∀ phase, .advance phase ∈ events → phase.Shaking) (member : s.epoch.role = .member)
    (shaking : s.epoch.phase.Shaking) (mem : pair.1 ∈ s.epoch.set ∧ pair.2 ∈ s.epoch.set)
    (carries : ∃ slot, Carries s pair e stage slot) : KeepsOffering D pair e stage s events := by
  induction events generalizing s with
  | nil => exact carries
  | cons event events ih =>
    obtain ⟨slot, carries⟩ := carries
    refine ⟨slot, carries, (Nat.lt_or_ge slot.expiresAtView s.view).imp_right fun live => ⟨?_, ?_⟩⟩
    · rintro rfl peer peers other
      exact nudge_reoffers member shaking mem carries.1 live peers other
    · obtain ⟨role, set, phase⟩ := step_frame D s event
      refine ih (fun event mem => of event (.tail _ mem)) (fun phase mem => shakes phase (.tail _ mem))
        (role.trans member) ?_ (set ▸ mem) (step_carries (of event (.head _)) carries live)
      rcases phase with same | advanced
      · exact same ▸ shaking
      · exact shakes _ (advanced ▸ .head _)

/-- **A delivered handshake message is relayed until it expires**, unless another epoch's message of
the pair came in. In any run of an epoch: a message of that epoch between two other members, delivered
before it expires, is fanned out, or the node already holds one of the epoch at that stage or later;
and from then on the node, while it shakes hands, keeps re-offering one. -/
theorem relays_until_expiry {start : Machine} (before later : List Event)
    (fresh : start.epoch.relayed m.pair = none) (reaches : run D start before = s)
    (foreign : Foreign D s via m) (current : m.epoch = e)
    (of : ∀ event ∈ before ++ later, event.Of D m.pair e) :
    let delivered := step D s (.deliver via (.ok (.handshake m)))
    ((∃ slot, Carries s m.pair e m.stage slot) ∨ ∀ peer ∈ s.epoch.peers, peer ≠ via → peer ≠ m.signer →
      .meshSend peer m ∈ delivered.2) ∧ (s.epoch.phase.Shaking →
      (∀ phase, .advance phase ∈ later → phase.Shaking) → KeepsOffering D m.pair e m.stage delivered.1 later) := by
  intro delivered
  have clean : ∀ slot, s.epoch.relayed m.pair = some slot → slot.msg.epoch = e :=
    reaches ▸ run_current before (fun event mem => of event (by simp [mem])) (by simp [fresh])
  obtain ⟨role, set, phase⟩ := step_frame D s (.deliver via (.ok (.handshake m)))
  have keeps (shaking : s.epoch.phase.Shaking) shakes := keepsOffering m.stage later
    (fun event mem => of event (by simp [mem])) shakes
    (role.trans foreign.member) (phase.elim (· ▸ shaking) nofun) (set ▸ foreign.members)
  by_cases past : ∀ slot, s.epoch.relayed m.pair = some slot → slot.stage.rank < m.stage.rank
  · have filled := foreign.fills past
    refine ⟨.inr fun peer peers via signer => ?_, fun now on => keeps now on ⟨m.slot, ?_, current, Nat.le_refl _⟩⟩
    · simp [delivered, step, filled, peers, via, signer]
    · simp [step, filled]
  · push Not at past
    obtain ⟨slot, held, reached⟩ := past
    have carries : Carries s m.pair e m.stage slot := ⟨held, clean slot held, reached⟩
    refine ⟨.inl ⟨slot, carries⟩, fun now on => keeps now on ⟨slot, ?_, carries.2⟩⟩
    rcases step_slot D s (.deliver via (.ok (.handshake m))) m.pair with same | ⟨⟨⟩, -⟩ |
      ⟨_, _, ⟨⟩, -, -, later, -⟩
    · exact same.trans held
    · exact absurd (later slot held) (Nat.not_lt.mpr reached)

/-! ## What is passed on -/

/-- The message may be passed on to the peer. -/
structure Relayable (D : Driver) (s : Machine) (peer : Identity) (m : Handshake) : Prop where
  verified : D.verifySignature m
  members : m.initiator ∈ s.epoch.set ∧ m.responder ∈ s.epoch.set
  live : s.view ≤ m.expiresAtView
  away : peer ≠ m.signer

/-- Every slot is that of a verified message of its pair. -/
def Verified (D : Driver) (s : Machine) : Prop :=
  ∀ pair slot, s.epoch.relayed pair = some slot → ∃ m, slot = m.slot ∧ D.verifySignature m ∧ m.pair = pair

theorem Verified.run (held : Verified D s) (events : List Event) : Verified D (run D s events) := by
  induction events generalizing s with
  | nil => exact held
  | cons event events ih =>
    refine ih fun pair slot now => ?_
    rcases step_slot D s event pair with same | ⟨-, rest⟩ | ⟨via, m, -, verified, mine, -, taken⟩
    · exact held pair slot (same ▸ now)
    · exact held pair slot (Option.filter_eq_some_iff.mp (rest ▸ now)).1
    · exact ⟨m, by simpa [taken] using now.symm, verified, mine⟩

/-- **A node passes on nothing forged, expired or foreign to its epoch**, and nothing back to its signer,
whatever comes in and in any order. -/
theorem relays_verified {peer : Identity} (events : List Event)
    (reaches : run D ⟨view, { state with relayed := fun _ => none }⟩ events = s)
    (sent : .meshSend peer m ∈ (step D s event).2) : Relayable D s peer m := by
  have held : Verified D s := reaches ▸ Verified.run (fun _ _ now => by cases now) events
  cases event with
  | viewTick | advance => cases sent
  | deliver via msg =>
    simp only [step, deliver] at sent
    repeat' split at sent
    all_goals try simp at sent
    rename_i given _ _ _
    unfold relay EpochState.slotRelay failPeer at sent
    by_cases members : given.initiator ∈ s.epoch.set ∧ given.responder ∈ s.epoch.set <;> grind [Relayable]
  | nudge =>
    simp only [step, EpochState.relayReoffers] at sent
    split at sent
    case h_3 => cases sent
    all_goals
      obtain ⟨slot, kept, sent⟩ := List.mem_flatMap.mp sent
      obtain ⟨pair, members, now⟩ := List.mem_filterMap.mp kept
      obtain ⟨now, live⟩ := Option.filter_eq_some_iff.mp now
      obtain ⟨_, rfl, verified, rfl⟩ := held pair slot now
      obtain ⟨_, away, ⟨⟩⟩ := List.mem_map.mp sent
      exact ⟨verified, List.pair_mem_product.mp members, of_decide_eq_true live,
        of_decide_eq_true (List.mem_filter.mp away).2⟩

end Relay

/-! ### A member between two others -/

/-- Member `[3]`, which carries for `[1]` and `[2]`; `[4]` replays. -/
def idleEpoch : EpochState :=
  ⟨7, .member, .handshakes, [[1], [2], [3], [4]], [[1], [2], [4]], [[1], [2], [3], [4]], fun _ => none⟩

/-- The close of the pair's handshake in epoch 6, and the opening of the one in epoch 7. -/
def oldAck : Handshake := ⟨.ack, 6, [1], [2], 900, [], []⟩
def newRequest : Handshake := ⟨.request, 7, [1], [2], 1100, [], []⟩

/-- The two messages are all that was ever signed. -/
def carrier : Driver := ⟨[3], none, fun m => m = oldAck ∨ m = newRequest⟩

/-- The replayed acknowledgment of epoch 6 keeps the request of epoch 7 out: nothing is sent on, and
the slot holds no message of epoch 7. -/
theorem replayed_ack_blocks :
    let s := run carrier ⟨600, idleEpoch⟩ [.deliver [4] (.ok (.handshake oldAck))]
    let delivered := step carrier s (.deliver [1] (.ok (.handshake newRequest)))
    s.view ≤ newRequest.expiresAtView ∧ delivered.2 = [] ∧
      (delivered.1.epoch.relayed ([1], [2])).map (·.msg.epoch) = some 6 ∧
      (s.epoch.relayed ([1], [2])).map (·.msg.epoch) = some 6 := by
  decide

theorem relays_until_expiry_request :
    .meshSend [2] newRequest ∈ (step carrier ⟨600, idleEpoch⟩ (.deliver [1] (.ok (.handshake newRequest)))).2 ∧
    KeepsOffering carrier ([1], [2]) 7 .request
      (step carrier ⟨600, idleEpoch⟩ (.deliver [1] (.ok (.handshake newRequest)))).1
      [.viewTick 1000, .nudge] := by
  have relayed := relays_until_expiry (D := carrier) (s := ⟨600, idleEpoch⟩) (m := newRequest) []
    [.viewTick 1000, .nudge] rfl rfl (by constructor <;> decide : Foreign _ _ [1] _) rfl
    (by simp [Event.Of])
  exact ⟨by decide, relayed.2 (.inl rfl) (by simp)⟩

theorem relays_verified_nudge :
    Relayable carrier (run carrier ⟨600, idleEpoch⟩ [.deliver [1] (.ok (.handshake newRequest))]) [2] newRequest :=
  relays_verified idleEpoch 600 _ rfl (by decide : _ ∈ (step _ _ .nudge).2)

end Ducktape.Netstack
