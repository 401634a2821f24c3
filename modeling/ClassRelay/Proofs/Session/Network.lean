import Mathlib
import ClassRelay.Proofs.Session.Parties
import ClassRelay.Proofs.Session.Replay

/-!
# Two parties and two pipes

A client and a server run over two pipes, one for each direction. A state of this `Network` is
what each party has done so far, and the bytes in flight. In a step one party makes one move: the
next one that its code asks for, as the replay tells. What it reads is some of the bytes in
flight to it, from the front; what it writes is some of what it has to write, and is in flight
behind the rest. Which party moves, and how many bytes it moves, is left open.

In every state that can be reached, the requests that the server has received are the first ones
of the client, and the responses that the client has got are the first ones of the server, in
order (`Session.exchanges_in_order`). What carries the proof are the books of the pipes: what one
party sent is what the other one took and what is in flight (`Sound`). As frames end where they
say, they are read back as they were written, however the pipes cut them.
-/

namespace ClassRelay

open Replay (awaitingBytes awaitingRoom)

/-- A client with its requests, and a server that answers. -/
structure Session where
  requests : List ByteArray
  /-- The response to the last request of a list, behind the others. -/
  respond : List ByteArray → ByteArray
  /-- How many requests the server is going to answer. -/
  rounds : Nat
  clientMax : UInt32
  serverMax : UInt32

/-- What the parties have done, oldest moves first, and the bytes in flight. -/
structure Network where
  client : List Move
  server : List Move
  toServer : ByteArray
  toClient : ByteArray

/-- The moves that a run over a replay has not asked for. -/
def Run.ahead {α : Type} (r : Run (StreamTransport Replay) α) : List Move :=
  r.channel.transport.stream.ahead

namespace Session

/-- The client, when it has made moves. -/
def client (S : Session) (moves : List Move) : Run (StreamTransport Replay) Message :=
  Channel.exchangeAll ⟨⟨.ofMoves moves⟩, S.clientMax⟩ S.requests

/-- The server, when it has made moves. -/
def server (S : Session) (moves : List Move) :
    Run (StreamTransport Replay) (ByteArray × ByteArray) :=
  Channel.serve S.respond [] ⟨⟨.ofMoves moves⟩, S.serverMax⟩ S.rounds

/-- One party makes one move, the one that its code asks for. -/
inductive Step (S : Session) : Network → Network → Prop
  | client {n : Network} {m : Move} {rest : ByteArray}
    (hasked : (S.client (n.client ++ [m])).ahead = [])
    (hreceived : n.toClient = m.received ++ rest) :
    Step S n { n with
      client := n.client ++ [m], toClient := rest, toServer := n.toServer ++ m.sent }
  | server {n : Network} {m : Move} {rest : ByteArray}
    (hasked : (S.server (n.server ++ [m])).ahead = [])
    (hreceived : n.toServer = m.received ++ rest) :
    Step S n { n with
      server := n.server ++ [m], toServer := rest, toClient := n.toClient ++ m.sent }

/-- The states that the parties get to from the start, step by step. -/
inductive Reachable (S : Session) : Network → Prop
  | start : Reachable S ⟨[], [], ByteArray.empty, ByteArray.empty⟩
  | step {n n' : Network} (h : Reachable S n) (hstep : S.Step n n') : Reachable S n'

variable {S : Session} {n n' : Network} {moves : List Move}

/-- Bytes whose front is cut out are the front and what is behind it. -/
private theorem eq_append_of_extract_eq {b front : ByteArray}
    (h : b.extract 0 front.size = front) : b = front ++ b.extract front.size b.size := by
  have hle : front.size ≤ b.size := by
    have hsize := congrArg ByteArray.size h
    rw [ByteArray.size_extract] at hsize
    omega
  conv => lhs; rw [eq_extract_append_extract hle, h]

/-- What a list has at a place, the lists that it is a prefix of have there. -/
private theorem getElem?_of_prefix {α : Type} {l l' : List α} {k : Nat} {a : α} (h : l <+: l')
    (hk : l[k]? = some a) : l'[k]? = some a := by
  obtain ⟨rest, rfl⟩ := h
  rw [List.getElem?_append_left (List.getElem?_eq_some_iff.mp hk).1, hk]

/-! ### The books of the pipes -/

/-- The code asked for all moves of the parties. What one party sent is what the other one
received, and what is in flight. -/
structure Sound (S : Session) (n : Network) : Prop where
  client_asked : (S.client n.client).ahead = []
  server_asked : (S.server n.server).ahead = []
  toServer_eq : Move.sentAll n.client = Move.receivedAll n.server ++ n.toServer
  toClient_eq : Move.sentAll n.server = Move.receivedAll n.client ++ n.toClient

theorem moves_client (S : Session) (moves : List Move) :
    (S.client moves).channel.transport.stream.moves = moves :=
  Channel.exchangeAll_keeps _ Replay.moves_of_writeAll Replay.moves_of_fill S.requests

theorem moves_server (S : Session) (moves : List Move) :
    (S.server moves).channel.transport.stream.moves = moves :=
  Channel.serve_keeps _ Replay.moves_of_writeAll Replay.moves_of_fill S.respond [] S.rounds

theorem Sound.step (h : S.Sound n) (hstep : S.Step n n') : S.Sound n' := by
  cases hstep with
  | @client m rest hasked hreceived =>
    refine ⟨hasked, h.server_asked, ?_, ?_⟩
    · rw [Move.sentAll_append, Move.sentAll_singleton, h.toServer_eq, ByteArray.append_assoc]
    · rw [Move.receivedAll_append, Move.receivedAll_singleton, h.toClient_eq, hreceived,
        ByteArray.append_assoc]
  | @server m rest hasked hreceived =>
    refine ⟨h.client_asked, hasked, ?_, ?_⟩
    · rw [Move.receivedAll_append, Move.receivedAll_singleton, h.toServer_eq, hreceived,
        ByteArray.append_assoc]
    · rw [Move.sentAll_append, Move.sentAll_singleton, h.toClient_eq, ByteArray.append_assoc]

theorem Reachable.sound (h : S.Reachable n) : S.Sound n := by
  induction h with
  | start =>
    refine ⟨?_, ?_, rfl, rfl⟩
    · exact (List.append_eq_nil_iff.mp (S.moves_client [])).2
    · exact (List.append_eq_nil_iff.mp (S.moves_server [])).2
  | step _ hstep ih => exact ih.step hstep

/-! ### How far the parties are -/

/-- How far the client is, by the bytes of its moves. -/
theorem client_asks (hasked : (S.client moves).ahead = []) :
    (∀ p ∈ (S.client moves).results.map Message.bytes, p.size ≤ S.clientMax.toNat) ∧
      Asks (· = awaitingBytes) (· = awaitingRoom) S.clientMax S.requests
        (S.client moves).results (S.client moves).fault (Move.receivedAll moves)
        (Move.sentAll moves) := by
  obtain ⟨hles, taken, sent, hasks, hpending, hwritten⟩ :=
    Replay.duplex.exchangeAll ⟨⟨.ofMoves moves⟩, S.clientMax⟩ S.requests
  obtain ⟨rfl, rfl⟩ := Replay.eq_of_ahead hasked (S.moves_client moves) hpending hwritten
  exact ⟨List.forall_mem_map.mpr hles, hasks⟩

/-- How far the server is, by the bytes of its moves. -/
theorem server_answers (hasked : (S.server moves).ahead = []) :
    (∀ p ∈ (S.server moves).results.map Prod.fst, p.size ≤ S.serverMax.toNat) ∧
      (S.server moves).results.map Prod.snd =
        ClassRelay.replies S.respond [] ((S.server moves).results.map Prod.fst) ∧
      Answers (· = awaitingBytes) (· = awaitingRoom) S.serverMax (S.server moves).results
        (S.server moves).fault (Move.receivedAll moves) (Move.sentAll moves) := by
  obtain ⟨hles, hreplies, taken, sent, hanswers, hpending, hwritten⟩ :=
    Replay.duplex.serve S.respond [] ⟨⟨.ofMoves moves⟩, S.serverMax⟩ S.rounds
  obtain ⟨rfl, rfl⟩ := Replay.eq_of_ahead hasked (S.moves_server moves) hpending hwritten
  exact ⟨hles, hreplies, hanswers⟩

/-! ### Order -/

/-- The responses to all requests. -/
def replies (S : Session) : List ByteArray :=
  ClassRelay.replies S.respond [] S.requests

/-- All payloads are within both limits. -/
structure WithinLimits (S : Session) : Prop where
  client : ∀ p ∈ S.requests ++ S.replies, p.size ≤ S.clientMax.toNat
  server : ∀ p ∈ S.requests ++ S.replies, p.size ≤ S.serverMax.toNat

namespace WithinLimits

variable (h : S.WithinLimits)

include h

theorem fits_requests : ∀ r ∈ S.requests, Frame.Fits r :=
  fun r hr => Frame.fits_of_le (h.client r (List.mem_append_left _ hr))

theorem fits_replies : ∀ r ∈ S.replies, Frame.Fits r :=
  fun r hr => Frame.fits_of_le (h.client r (List.mem_append_right _ hr))

end WithinLimits

namespace Sound

variable (h : S.Sound n)

include h

/-- What the server took and what is in flight to it is the front of the requests. -/
theorem requests_framed : ∃ later,
    Frame.encodeAll S.requests = Move.receivedAll n.server ++ n.toServer ++ later := by
  obtain ⟨-, hasks⟩ := client_asks h.client_asked
  rw [← h.toServer_eq]
  exact hasks.exists_eq_append

/-- What the client took and what is in flight to it is the front of the responses. -/
theorem responses_framed : ∃ later, Frame.encodeAll ((S.server n.server).results.map Prod.snd) =
    Move.receivedAll n.client ++ n.toClient ++ later := by
  obtain ⟨-, -, hanswers⟩ := server_answers h.server_asked
  rw [← h.toClient_eq]
  exact hanswers.exists_eq_append

variable (hlimits : S.WithinLimits)

include hlimits

theorem received : (S.server n.server).results.map Prod.fst <+: S.requests := by
  obtain ⟨hles, -, hanswers⟩ := server_answers h.server_asked
  obtain ⟨later, hframed⟩ := h.requests_framed
  obtain ⟨b, htaken⟩ := hanswers.exists_taken_eq
  rw [htaken, ByteArray.append_assoc, ByteArray.append_assoc] at hframed
  obtain ⟨rs, hrs, -⟩ := Frame.exists_of_encodeAll_append
    (fun p hp => Frame.fits_of_le (hles p hp)) hlimits.fits_requests hframed.symm
  exact ⟨rs, hrs.symm⟩

theorem responded : (S.server n.server).results.map Prod.snd <+: S.replies := by
  obtain ⟨-, hreplies, -⟩ := server_answers h.server_asked
  rw [hreplies]
  exact replies_prefix (h.received hlimits)

theorem fits_responses : ∀ r ∈ (S.server n.server).results.map Prod.snd, Frame.Fits r :=
  fun r hr => hlimits.fits_replies r ((h.responded hlimits).subset hr)

theorem returned : (S.client n.client).results.map Message.bytes <+:
    (S.server n.server).results.map Prod.snd := by
  obtain ⟨hles, hasks⟩ := client_asks h.client_asked
  obtain ⟨later, hframed⟩ := h.responses_framed
  obtain ⟨b, htaken⟩ := hasks.exists_taken_eq
  rw [htaken, ByteArray.append_assoc, ByteArray.append_assoc] at hframed
  obtain ⟨rs, hrs, -⟩ := Frame.exists_of_encodeAll_append
    (fun p hp => Frame.fits_of_le (hles p hp)) (h.fits_responses hlimits) hframed.symm
  exact ⟨rs, hrs.symm⟩

theorem exchanged {k : Nat} {m : Message} (hm : (S.client n.client).results[k]? = some m) :
    ∃ request, S.requests[k]? = some request ∧
      (S.server n.server).results[k]? = some (request, m.bytes) := by
  have hreturned : ((S.client n.client).results.map Message.bytes)[k]? = some m.bytes := by
    rw [List.getElem?_map, hm]
    rfl
  have hsnd := getElem?_of_prefix (h.returned hlimits) hreturned
  rw [List.getElem?_map] at hsnd
  obtain ⟨⟨request, response⟩, hround, rfl⟩ := Option.map_eq_some_iff.mp hsnd
  have hfst : ((S.server n.server).results.map Prod.fst)[k]? = some request := by
    rw [List.getElem?_map, hround]
    rfl
  exact ⟨request, getElem?_of_prefix (h.received hlimits) hfst, hround⟩

theorem client_waits {e : ChannelError} (he : (S.client n.client).fault = some e) :
    e = .io awaitingBytes ∨ e = .io awaitingRoom := by
  obtain ⟨hles, hasks⟩ := client_asks h.client_asked
  obtain ⟨later, hframed⟩ := h.responses_framed
  rw [he] at hasks
  rw [ByteArray.append_assoc] at hframed
  have hrequests : ∀ r ∈ S.requests, r.size ≤ S.clientMax.toNat :=
    fun r hr => hlimits.client r (List.mem_append_left _ hr)
  have hresponses : ∀ p ∈ (S.server n.server).results.map Prod.snd, p.size ≤ S.clientMax.toNat :=
    fun p hp => hlimits.client p (List.mem_append_right _ ((h.responded hlimits).subset hp))
  obtain ⟨e', rfl, he'⟩ := hasks.exists_io hrequests hles hresponses hframed.symm
  exact he'.imp (congrArg _) (congrArg _)

theorem server_waits {e : ChannelError} (he : (S.server n.server).fault = some e) :
    e = .io awaitingBytes ∨ e = .io awaitingRoom := by
  obtain ⟨hles, -, hanswers⟩ := server_answers h.server_asked
  obtain ⟨later, hframed⟩ := h.requests_framed
  rw [he] at hanswers
  rw [ByteArray.append_assoc] at hframed
  have hrequests : ∀ r ∈ S.requests, r.size ≤ S.serverMax.toNat :=
    fun r hr => hlimits.server r (List.mem_append_left _ hr)
  have hresponses : ∀ p ∈ (S.server n.server).results.map Prod.snd, p.size ≤ S.serverMax.toNat :=
    fun p hp => hlimits.server p (List.mem_append_right _ ((h.responded hlimits).subset hp))
  obtain ⟨e', rfl, he'⟩ := hanswers.exists_io hles hresponses hrequests hframed.symm
  exact he'.imp (congrArg _) (congrArg _)

theorem not_stuck (hclient : (S.client n.client).fault = some (.io awaitingBytes))
    (hserver : (S.server n.server).fault = some (.io awaitingBytes)) :
    n.toServer ≠ ByteArray.empty ∨ n.toClient ≠ ByteArray.empty := by
  obtain ⟨hles, hasks⟩ := client_asks h.client_asked
  obtain ⟨hles', -, hanswers⟩ := server_answers h.server_asked
  rw [hclient] at hasks
  rw [hserver] at hanswers
  obtain ⟨asked, request, b, hlength, hasked, hsent, htaken, hb⟩ :=
    hasks.unanswered_of_io (by decide)
  obtain ⟨hsent', b', htaken', hb'⟩ := hanswers.unasked_of_io (by decide)
  by_cases hserver : n.toServer = ByteArray.empty
  · by_cases hclient : n.toClient = ByteArray.empty
    · -- The server has then got one request more than the client has got responses, and has
      -- answered all of them.
      have hrequests : (S.server n.server).results.map Prod.fst = asked ++ [request] := by
        refine Frame.eq_of_encodeAll_append (fun p hp => Frame.fits_of_le (hles' p hp))
          (fun p hp => hlimits.fits_requests p (hasked.subset hp)) ?_ hb'
        rw [← htaken', ← hsent, h.toServer_eq, hserver, ByteArray.append_empty]
      have hresponses : (S.client n.client).results.map Message.bytes =
          (S.server n.server).results.map Prod.snd := by
        refine Frame.eq_of_encodeAll_append (fun p hp => Frame.fits_of_le (hles p hp))
          (h.fits_responses hlimits) ?_ hb
        rw [← htaken, ← hsent', h.toClient_eq, hclient, ByteArray.append_empty]
      have hlengths := congrArg List.length hrequests
      have hlengths' := congrArg List.length hresponses
      simp only [List.length_map, List.length_append, List.length_singleton] at hlengths hlengths'
      omega
    · exact .inr hclient
  · exact .inl hserver

theorem completed (hdone : (S.client n.client).fault = none) :
    (S.client n.client).results.map Message.bytes = S.replies := by
  obtain ⟨-, hasks⟩ := client_asks h.client_asked
  rw [hdone] at hasks
  refine ((h.returned hlimits).trans (h.responded hlimits)).eq_of_length ?_
  rw [List.length_map, hasks.length_eq, replies, length_replies]

end Sound

/-- No message is lost, made up or mixed up with another. -/
structure InOrder (S : Session) (n : Network) : Prop where
  /-- The server has received the first requests, in order. -/
  received : (S.server n.server).results.map Prod.fst <+: S.requests
  /-- It has computed the responses to them. -/
  responded : (S.server n.server).results.map Prod.snd <+: S.replies
  /-- An exchange that is completed has returned what the server sent to its request. -/
  exchanged : ∀ (k : Nat) (m : Message), (S.client n.client).results[k]? = some m →
    ∃ request, S.requests[k]? = some request ∧
      (S.server n.server).results[k]? = some (request, m.bytes)
  /-- What the server took and what is in flight to it is the front of the frames of the
  requests. -/
  requests_framed : ∃ later,
    Frame.encodeAll S.requests = Move.receivedAll n.server ++ n.toServer ++ later
  /-- What the client took and what is in flight to it is the front of the frames of the
  responses that the server has computed. -/
  responses_framed : ∃ later, Frame.encodeAll ((S.server n.server).results.map Prod.snd) =
    Move.receivedAll n.client ++ n.toClient ++ later
  /-- The client has stopped only to wait for its stream. -/
  client_waits : ∀ e, (S.client n.client).fault = some e →
    e = .io awaitingBytes ∨ e = .io awaitingRoom
  /-- The server has stopped only to wait for its stream. -/
  server_waits : ∀ e, (S.server n.server).fault = some e →
    e = .io awaitingBytes ∨ e = .io awaitingRoom
  /-- If both wait for bytes, then some are in flight. -/
  not_stuck : (S.client n.client).fault = some (.io awaitingBytes) →
    (S.server n.server).fault = some (.io awaitingBytes) →
    n.toServer ≠ ByteArray.empty ∨ n.toClient ≠ ByteArray.empty
  /-- A client that is through has got the responses to all its requests. -/
  completed : (S.client n.client).fault = none →
    (S.client n.client).results.map Message.bytes = S.replies

/-! ### Schedules -/

/-- A move that is asked of one party. -/
inductive Turn
  | client (m : Move)
  | server (m : Move)

/-- The state after a turn, if the code of the party asks for the move and the bytes are there. -/
def turn? (S : Session) (n : Network) : Turn → Option Network
  | .client m =>
    if (S.client (n.client ++ [m])).ahead = [] ∧
        n.toClient.extract 0 m.received.size = m.received then
      some { n with
        client := n.client ++ [m]
        toClient := n.toClient.extract m.received.size n.toClient.size
        toServer := n.toServer ++ m.sent }
    else none
  | .server m =>
    if (S.server (n.server ++ [m])).ahead = [] ∧
        n.toServer.extract 0 m.received.size = m.received then
      some { n with
        server := n.server ++ [m]
        toServer := n.toServer.extract m.received.size n.toServer.size
        toClient := n.toClient ++ m.sent }
    else none

/-- The state after the turns of a schedule, if all of them can be taken. -/
def play? (S : Session) (n : Network) : List Turn → Option Network
  | [] => some n
  | t :: turns => (S.turn? n t).bind fun n' => S.play? n' turns

theorem step_of_turn? {t : Turn} (h : S.turn? n t = some n') : S.Step n n' := by
  cases t with
  | client m =>
    obtain ⟨⟨hasked, hreceived⟩, ⟨⟩⟩ := Option.ite_none_right_eq_some.mp h
    exact .client hasked (eq_append_of_extract_eq hreceived)
  | server m =>
    obtain ⟨⟨hasked, hreceived⟩, ⟨⟩⟩ := Option.ite_none_right_eq_some.mp h
    exact .server hasked (eq_append_of_extract_eq hreceived)

/-- A schedule leads to states that can be reached. -/
theorem Reachable.play {turns : List Turn} (h : S.Reachable n) (hplay : S.play? n turns = some n') :
    S.Reachable n' := by
  induction turns generalizing n with
  | nil =>
    cases hplay
    exact h
  | cons t turns ih =>
    obtain ⟨n₁, hturn, hrest⟩ := Option.bind_eq_some_iff.mp hplay
    exact ih (h.step (step_of_turn? hturn)) hrest

/-- **Two peers never mix up messages**, whichever of them moves and however many bytes. -/
theorem exchanges_in_order (S : Session) (hlimits : S.WithinLimits) {n : Network}
    (hn : S.Reachable n) : S.InOrder n where
  received := hn.sound.received hlimits
  responded := hn.sound.responded hlimits
  exchanged _ _ := hn.sound.exchanged hlimits
  requests_framed := hn.sound.requests_framed
  responses_framed := hn.sound.responses_framed
  client_waits _ := hn.sound.client_waits hlimits
  server_waits _ := hn.sound.server_waits hlimits
  not_stuck := hn.sound.not_stuck hlimits
  completed := hn.sound.completed hlimits

/-- A session in which each request is answered by its number. -/
def numbered : Session where
  requests := [⟨#[1, 2]⟩, ⟨#[]⟩]
  respond past := ⟨#[UInt8.ofNat past.length]⟩
  rounds := 2
  clientMax := 4
  serverMax := 4

/-- A state in which the client has got the first response while the server is about to flush it,
and a part of the second request is in flight. Header and payload of the first one were moved in
other pieces than they were written. -/
theorem exchanges_in_order_numbered : numbered.WithinLimits ∧ ∃ n, numbered.Reachable n ∧
    (numbered.client n.client).results.map Message.bytes = [⟨#[1]⟩] ∧
    (numbered.server n.server).results = [(⟨#[1, 2]⟩, ⟨#[1]⟩)] ∧
    n.toServer = ⟨#[0, 0]⟩ ∧ numbered.InOrder n := by
  have hlimits : numbered.WithinLimits := ⟨by decide, by decide⟩
  have hplay : numbered.play? ⟨[], [], ByteArray.empty, ByteArray.empty⟩
      [.client (.write ⟨#[0, 0, 0]⟩), .server (.read ⟨#[0, 0]⟩),
        .client (.write ⟨#[2, 1, 2]⟩), .client .flush, .server (.read ⟨#[0, 2]⟩),
        .server (.read ⟨#[1, 2]⟩), .server (.write ⟨#[0, 0, 0, 1, 1]⟩),
        .client (.read ⟨#[0, 0, 0, 1]⟩), .client (.read ⟨#[1]⟩), .client (.write ⟨#[0, 0]⟩)] =
      some ⟨[.write ⟨#[0, 0, 0]⟩, .write ⟨#[2, 1, 2]⟩, .flush, .read ⟨#[0, 0, 0, 1]⟩,
          .read ⟨#[1]⟩, .write ⟨#[0, 0]⟩],
        [.read ⟨#[0, 0]⟩, .read ⟨#[0, 2]⟩, .read ⟨#[1, 2]⟩, .write ⟨#[0, 0, 0, 1, 1]⟩],
        ⟨#[0, 0]⟩, ⟨#[]⟩⟩ := by
    cbv
  have hreachable := Reachable.start.play hplay
  exact ⟨hlimits, _, hreachable, by cbv, by cbv, rfl,
    exchanges_in_order numbered hlimits hreachable⟩

end Session

end ClassRelay
