import ClassRelay.Proofs.Channel.Delivery

/-!
# Clients and servers

A client exchanges a list of requests for their responses; a server receives requests, and
answers each before it receives the next. Both stop at the first error. Over a transport that
keeps bytes in order both ways, the bytes that a party took and sent tell how far it is: whole
frames for what it is done with, and behind them a part of one frame at most, in one of the two
directions (`Asks`, `Answers`).
-/

namespace ClassRelay

/-! ### The code of the parties -/

/-- What a party got out of its channel, the error that it stopped at, and the channel then. -/
structure Run (τ α : Type) where
  results : List α
  fault : Option ChannelError
  channel : Channel τ

section

variable {τ : Type} [Transport τ]

/-- Exchanges requests for responses, in order, up to the first error. -/
def Channel.exchangeAll (c : Channel τ) : List ByteArray → Run τ Message
  | [] => ⟨[], none, c⟩
  | request :: requests =>
    let exchanged := c.exchange request
    match exchanged.result with
    | .error e => ⟨[], some e, exchanged.channel⟩
    | .ok response =>
      let rest := exchanged.channel.exchangeAll requests
      ⟨response :: rest.results, rest.fault, rest.channel⟩

/-- Receives requests and sends the response to each, for some rounds, up to the first error. A
response may depend on all requests so far. The results are the requests, each with the response
to it. -/
def Channel.serve (respond : List ByteArray → ByteArray) (past : List ByteArray)
    (c : Channel τ) : Nat → Run τ (ByteArray × ByteArray)
  | 0 => ⟨[], none, c⟩
  | rounds + 1 =>
    let received := c.receive
    match received.result with
    | .error e => ⟨[], some e, received.channel⟩
    | .ok request =>
      let past' := past ++ [request.bytes]
      let sent := received.channel.send (respond past')
      match sent.result with
      | .error e => ⟨[(request.bytes, respond past')], some e, sent.channel⟩
      | .ok _ =>
        let rest := sent.channel.serve respond past' rounds
        ⟨(request.bytes, respond past') :: rest.results, rest.fault, rest.channel⟩

section Keeping

variable {α : Type} {f : τ → α} (c : Channel τ)
  (hwrite : ∀ {bufs t answer t'}, Transport.writeAll bufs t = (answer, t') → f t' = f t)
  (hread : ∀ {n t answer t'}, Transport.fill n t = (answer, t') → f t' = f t)

include hwrite hread

/-- What writes and reads leave alone, a client leaves alone. -/
theorem Channel.exchangeAll_keeps (requests : List ByteArray) :
    f (c.exchangeAll requests).channel.transport = f c.transport := by
  induction requests generalizing c with
  | nil => rfl
  | cons request requests ih =>
    have hexchange := c.exchange_keeps hwrite hread request
    rw [exchangeAll]
    cases hresult : (c.exchange request).result with
    | error e =>
      exact hexchange
    | ok response =>
      exact (ih _).trans hexchange

/-- What writes and reads leave alone, a server leaves alone. -/
theorem Channel.serve_keeps (respond : List ByteArray → ByteArray) (past : List ByteArray)
    (rounds : Nat) : f (c.serve respond past rounds).channel.transport = f c.transport := by
  induction rounds generalizing c past with
  | zero => rfl
  | succ rounds ih =>
    have hreceive := c.receive_keeps hread
    rw [serve]
    cases hresult : c.receive.result with
    | error e =>
      exact hreceive
    | ok request =>
      have hsend := c.receive.channel.send_keeps hwrite (respond (past ++ [request.bytes]))
      cases hresult' : (c.receive.channel.send (respond (past ++ [request.bytes]))).result with
      | error e =>
        simp only [hresult']
        exact hsend.trans hreceive
      | ok count =>
        simp only [hresult']
        exact (ih _ _).trans (hsend.trans hreceive)

end Keeping

end

/-- The responses to requests that follow those of the past. -/
def replies (respond : List ByteArray → ByteArray) (past : List ByteArray) :
    List ByteArray → List ByteArray
  | [] => []
  | request :: requests =>
    respond (past ++ [request]) :: replies respond (past ++ [request]) requests

/-- The responses to the first requests are the first responses. -/
theorem replies_prefix {respond : List ByteArray → ByteArray} {past rs rs' : List ByteArray}
    (h : rs <+: rs') : replies respond past rs <+: replies respond past rs' := by
  induction rs generalizing past rs' with
  | nil => exact List.nil_prefix
  | cons r rs ih =>
    obtain ⟨rest, rfl⟩ := h
    rw [List.cons_append, replies, replies, List.prefix_cons_inj]
    exact ih (List.prefix_append rs rest)

@[simp] theorem length_replies (respond : List ByteArray → ByteArray) (past rs : List ByteArray) :
    (replies respond past rs).length = rs.length := by
  induction rs generalizing past with
  | nil => rfl
  | cons r rs ih => rw [replies, List.length_cons, ih, List.length_cons]

/-! ### How far a party is -/

section

variable (readFails writeFails : IoError → Prop) (max : UInt32)

/-- How far a client is that has got responses and was stopped by a fault, by the bytes that it
took and those that it sent. -/
inductive Asks (requests : List ByteArray) :
    List Message → Option ChannelError → (taken sent : ByteArray) → Prop
  | finished {responses : List Message} (hlength : responses.length = requests.length) :
    Asks requests responses none (Frame.encodeAll (responses.map Message.bytes))
      (Frame.encodeAll requests)
  /-- A request was not sent, or not all of it. -/
  | unsent {responses : List Message} {asked rest : List ByteArray} {request b : ByteArray}
    {e : ChannelError} (hrequests : requests = asked ++ request :: rest)
    (hlength : responses.length = asked.length)
    (h : Sent writeFails max request (.error e) b) :
    Asks requests responses (some e) (Frame.encodeAll (responses.map Message.bytes))
      (Frame.encodeAll asked ++ b)
  /-- A response was not received, or not all of it. -/
  | unanswered {responses : List Message} {asked rest : List ByteArray} {request b : ByteArray}
    {e : ChannelError} (hrequests : requests = asked ++ request :: rest)
    (hlength : responses.length = asked.length) (h : Taken readFails max (.error e) b) :
    Asks requests responses (some e) (Frame.encodeAll (responses.map Message.bytes) ++ b)
      (Frame.encodeAll (asked ++ [request]))

/-- How far a server is that has received requests, computed their responses and was stopped by a
fault, by the bytes that it took and those that it sent. -/
inductive Answers :
    List (ByteArray × ByteArray) → Option ChannelError → (taken sent : ByteArray) → Prop
  | finished {served : List (ByteArray × ByteArray)} :
    Answers served none (Frame.encodeAll (served.map Prod.fst))
      (Frame.encodeAll (served.map Prod.snd))
  /-- A request was not received, or not all of it. -/
  | unasked {served : List (ByteArray × ByteArray)} {b : ByteArray} {e : ChannelError}
    (h : Taken readFails max (.error e) b) :
    Answers served (some e) (Frame.encodeAll (served.map Prod.fst) ++ b)
      (Frame.encodeAll (served.map Prod.snd))
  /-- A response was not sent, or not all of it. -/
  | unsent {served : List (ByteArray × ByteArray)} {request response b : ByteArray}
    {e : ChannelError} (h : Sent writeFails max response (.error e) b) :
    Answers (served ++ [(request, response)]) (some e)
      (Frame.encodeAll ((served ++ [(request, response)]).map Prod.fst))
      (Frame.encodeAll (served.map Prod.snd) ++ b)

end

variable {readFails writeFails : IoError → Prop} {max : UInt32} {fault : Option ChannelError}
  {taken sent : ByteArray}

/-- A client whose first exchange fails has sent a part of one request, or has sent it and got a
part of one response. -/
theorem Exchanged.asks {request : ByteArray} {e : ChannelError}
    (h : Exchanged readFails writeFails max request (.error e) taken sent)
    (requests : List ByteArray) :
    Asks readFails writeFails max (request :: requests) [] (some e) taken sent := by
  have hlength : ([] : List Message).length = ([] : List ByteArray).length := rfl
  have hrequests : request :: requests = [] ++ request :: requests := rfl
  cases h with
  | unsent h =>
    rw [← ByteArray.empty_append (b := sent)]
    exact .unsent hrequests hlength h
  | unanswered h =>
    rw [← ByteArray.empty_append (b := taken), ← Frame.encodeAll_singleton]
    exact .unanswered hrequests hlength h

/-- A server whose first receive fails has got a part of one request. -/
theorem Taken.answers {e : ChannelError} (h : Taken readFails max (.error e) taken) :
    Answers readFails writeFails max [] (some e) taken ByteArray.empty := by
  rw [← ByteArray.empty_append (b := taken)]
  exact .unasked h

/-- A server whose first send fails has got one request, and has sent a part of the response. -/
theorem Sent.answers {request response : ByteArray} {e : ChannelError}
    (h : Sent writeFails max response (.error e) sent) :
    Answers readFails writeFails max [(request, response)] (some e) (Frame.encode request)
      sent := by
  rw [← ByteArray.empty_append (b := sent), ← Frame.encodeAll_singleton]
  exact @Answers.unsent _ _ _ [] request response sent e h

/-- One exchange more, in front of the others. -/
theorem Asks.cons {requests : List ByteArray} {responses : List Message}
    (h : Asks readFails writeFails max requests responses fault taken sent) (request : ByteArray)
    (response : Message) : Asks readFails writeFails max (request :: requests)
      (response :: responses) fault (Frame.encode response.bytes ++ taken)
      (Frame.encode request ++ sent) := by
  cases h with
  | finished hlength => exact .finished (congrArg (· + 1) hlength)
  | @unsent asked rest next b e hrequests hlength h =>
    have hrequests' : request :: requests = (request :: asked) ++ next :: rest := by
      rw [hrequests, List.cons_append]
    have hlength' : (response :: responses).length = (request :: asked).length := by
      rw [List.length_cons, hlength, List.length_cons]
    rw [← ByteArray.append_assoc]
    exact .unsent hrequests' hlength' h
  | @unanswered asked rest next b e hrequests hlength h =>
    have hrequests' : request :: requests = (request :: asked) ++ next :: rest := by
      rw [hrequests, List.cons_append]
    have hlength' : (response :: responses).length = (request :: asked).length := by
      rw [List.length_cons, hlength, List.length_cons]
    rw [← ByteArray.append_assoc]
    exact .unanswered hrequests' hlength' h

/-- One round more, in front of the others. -/
theorem Answers.cons {served : List (ByteArray × ByteArray)}
    (h : Answers readFails writeFails max served fault taken sent) (round : ByteArray × ByteArray) :
    Answers readFails writeFails max (round :: served) fault (Frame.encode round.1 ++ taken)
      (Frame.encode round.2 ++ sent) := by
  cases h with
  | finished => exact .finished
  | unasked h =>
    rw [← ByteArray.append_assoc]
    exact .unasked h
  | @unsent served request response b e h =>
    rw [← ByteArray.append_assoc]
    exact @Answers.unsent _ _ _ (round :: served) request response b e h

/-- A client has sent the front of the frames of its requests. -/
theorem Asks.exists_eq_append {requests : List ByteArray} {responses : List Message}
    (h : Asks readFails writeFails max requests responses fault taken sent) :
    ∃ rest, Frame.encodeAll requests = sent ++ rest := by
  cases h with
  | finished => exact ⟨ByteArray.empty, ByteArray.append_empty.symm⟩
  | @unsent asked rest request b e hrequests hlength h =>
    obtain ⟨behind, hframe⟩ := h.exists_eq_append
    refine ⟨behind ++ Frame.encodeAll rest, ?_⟩
    rw [hrequests, Frame.encodeAll_append, Frame.encodeAll_cons, hframe, ByteArray.append_assoc,
      ByteArray.append_assoc]
  | @unanswered asked rest request b e hrequests hlength h =>
    refine ⟨Frame.encodeAll rest, ?_⟩
    rw [hrequests, ← Frame.encodeAll_append, List.append_assoc, List.singleton_append]

/-- A client has taken the frames of its responses, and less than a frame or a header. -/
theorem Asks.exists_taken_eq {requests : List ByteArray} {responses : List Message}
    (h : Asks readFails writeFails max requests responses fault taken sent) :
    ∃ b, taken = Frame.encodeAll (responses.map Message.bytes) ++ b := by
  cases h with
  | finished | unsent => exact ⟨ByteArray.empty, ByteArray.append_empty.symm⟩
  | unanswered => exact ⟨_, rfl⟩

/-- A server has sent the front of the frames of its responses. -/
theorem Answers.exists_eq_append {served : List (ByteArray × ByteArray)}
    (h : Answers readFails writeFails max served fault taken sent) :
    ∃ rest, Frame.encodeAll (served.map Prod.snd) = sent ++ rest := by
  cases h with
  | finished | unasked => exact ⟨ByteArray.empty, ByteArray.append_empty.symm⟩
  | unsent h =>
    obtain ⟨behind, hframe⟩ := h.exists_eq_append
    refine ⟨behind, ?_⟩
    rw [List.map_append, Frame.encodeAll_append, ByteArray.append_assoc, ← hframe]
    exact congrArg _ (Frame.encodeAll_singleton _)

/-- A server has taken the frames of its requests, and less than a frame or a header. -/
theorem Answers.exists_taken_eq {served : List (ByteArray × ByteArray)}
    (h : Answers readFails writeFails max served fault taken sent) :
    ∃ b, taken = Frame.encodeAll (served.map Prod.fst) ++ b := by
  cases h with
  | finished | unsent => exact ⟨ByteArray.empty, ByteArray.append_empty.symm⟩
  | unasked => exact ⟨_, rfl⟩

/-! ### Why a party stops -/

section

variable {requests ps : List ByteArray} {responses : List Message}
  {served : List (ByteArray × ByteArray)} {x : ByteArray} {e : ChannelError} {e' : IoError}

/-- If the limit lets all payloads pass, then a client fails only if its transport does. -/
theorem Asks.exists_io (h : Asks readFails writeFails max requests responses (some e) taken sent)
    (hrequests : ∀ r ∈ requests, r.size ≤ max.toNat)
    (hresponses : ∀ p ∈ responses.map Message.bytes, p.size ≤ max.toNat)
    (hps : ∀ p ∈ ps, p.size ≤ max.toNat) (htaken : taken ++ x = Frame.encodeAll ps) :
    ∃ e', e = .io e' ∧ (readFails e' ∨ writeFails e') := by
  cases h with
  | @unsent asked rest request b _ heq hlength h =>
    have hle : request.size ≤ max.toNat := hrequests request (heq ▸ by simp)
    obtain ⟨e', rfl, he⟩ := h.exists_io hle
    exact ⟨e', rfl, .inr he⟩
  | unanswered heq hlength h =>
    rw [ByteArray.append_assoc] at htaken
    obtain ⟨rs, rfl, hrs⟩ := Frame.exists_of_encodeAll_append
      (fun p hp => Frame.fits_of_le (hresponses p hp)) (fun p hp => Frame.fits_of_le (hps p hp))
      htaken
    obtain ⟨e', rfl, he⟩ := h.exists_io (fun r hr => hps r (List.mem_append_right _ hr)) hrs
    exact ⟨e', rfl, .inl he⟩

/-- If the limit lets all payloads pass, then a server fails only if its transport does. -/
theorem Answers.exists_io (h : Answers readFails writeFails max served (some e) taken sent)
    (hrequests : ∀ r ∈ served.map Prod.fst, r.size ≤ max.toNat)
    (hresponses : ∀ p ∈ served.map Prod.snd, p.size ≤ max.toNat)
    (hps : ∀ p ∈ ps, p.size ≤ max.toNat) (htaken : taken ++ x = Frame.encodeAll ps) :
    ∃ e', e = .io e' ∧ (readFails e' ∨ writeFails e') := by
  cases h with
  | unasked h =>
    rw [ByteArray.append_assoc] at htaken
    obtain ⟨rs, rfl, hrs⟩ := Frame.exists_of_encodeAll_append
      (fun p hp => Frame.fits_of_le (hrequests p hp)) (fun p hp => Frame.fits_of_le (hps p hp))
      htaken
    obtain ⟨e', rfl, he⟩ := h.exists_io (fun r hr => hps r (List.mem_append_right _ hr)) hrs
    exact ⟨e', rfl, .inl he⟩
  | @unsent served request response b _ h =>
    obtain ⟨e', rfl, he⟩ := h.exists_io (hresponses response (by simp))
    exact ⟨e', rfl, .inr he⟩

/-- A client that did not fail has got all responses. -/
theorem Asks.length_eq (h : Asks readFails writeFails max requests responses none taken sent) :
    responses.length = requests.length := by
  cases h with
  | finished hlength => exact hlength

/-- A client whose transport failed, but not to write, has sent one request more than it has got
responses, and has not got a whole frame more. -/
theorem Asks.unanswered_of_io
    (h : Asks readFails writeFails max requests responses (some (.io e')) taken sent)
    (he : ¬ writeFails e') : ∃ asked request b, responses.length = asked.length ∧
      asked ++ [request] <+: requests ∧ sent = Frame.encodeAll (asked ++ [request]) ∧
      taken = Frame.encodeAll (responses.map Message.bytes) ++ b ∧ Frame.Incomplete b := by
  cases h with
  | unsent hrequests hlength h =>
    cases h with
    | part hfails => exact absurd hfails he
  | @unanswered asked rest request b _ hrequests hlength h =>
    cases h with
    | part _ hb =>
    refine ⟨asked, request, b, hlength, ⟨rest, ?_⟩, rfl, rfl, hb⟩
    rw [hrequests, List.append_assoc, List.singleton_append]

/-- A server whose transport failed, but not to write, has answered all requests that it has got,
and has not got a whole frame more. -/
theorem Answers.unasked_of_io
    (h : Answers readFails writeFails max served (some (.io e')) taken sent)
    (he : ¬ writeFails e') : sent = Frame.encodeAll (served.map Prod.snd) ∧
      ∃ b, taken = Frame.encodeAll (served.map Prod.fst) ++ b ∧ Frame.Incomplete b := by
  cases h with
  | unasked h =>
    cases h with
    | part _ hb => exact ⟨rfl, _, rfl, hb⟩
  | unsent h =>
    cases h with
    | part hfails => exact absurd hfails he

end

section

variable {τ : Type} [Transport τ] {pending written : τ → ByteArray}

/-- What a client takes and sends tells how far it is, and it got only what is let pass. -/
theorem Duplex.exchangeAll (h : Duplex readFails writeFails pending written) (c : Channel τ)
    (requests : List ByteArray) :
    (∀ m ∈ (c.exchangeAll requests).results, m.bytes.size ≤ c.maxPayload.toNat) ∧
    ∃ taken sent, Asks readFails writeFails c.maxPayload requests
        (c.exchangeAll requests).results (c.exchangeAll requests).fault taken sent ∧
      pending c.transport = taken ++ pending (c.exchangeAll requests).channel.transport ∧
      written (c.exchangeAll requests).channel.transport = written c.transport ++ sent := by
  induction requests generalizing c with
  | nil =>
    refine ⟨List.forall_mem_nil _, _, _, .finished rfl, ?_, ?_⟩
    · exact ByteArray.empty_append.symm
    · exact ByteArray.append_empty.symm
  | cons request requests ih =>
    rw [Channel.exchangeAll]
    obtain ⟨taken, sent, hexchanged, hmax, hpending, hwritten⟩ := h.exchange c request
    generalize (c.exchange request).channel = c' at hmax hpending hwritten ⊢
    cases hresult : (c.exchange request).result with
    | error e =>
      -- The client stops here; how far it is, is what the failed exchange tells.
      refine ⟨List.forall_mem_nil _, taken, sent, ?_, hpending, hwritten⟩
      rw [hresult] at hexchanged
      exact hexchanged.asks requests
    | ok response =>
      rw [hresult] at hexchanged
      cases hexchanged with
      | whole hle =>
      obtain ⟨hles, taken, sent, hasks, hrest, hrest'⟩ := ih c'
      rw [hmax] at hles hasks
      refine ⟨List.forall_mem_cons.mpr ⟨hle, hles⟩, _, _, hasks.cons request response, ?_, ?_⟩
      · rw [hpending, hrest, ByteArray.append_assoc]
      · rw [hrest', hwritten, ByteArray.append_assoc]

/-- What a server takes and sends tells how far it is. It got only what is let pass, and has
computed the responses to it. -/
theorem Duplex.serve (h : Duplex readFails writeFails pending written)
    (respond : List ByteArray → ByteArray) (past : List ByteArray) (c : Channel τ) (rounds : Nat) :
    (∀ r ∈ (c.serve respond past rounds).results.map Prod.fst, r.size ≤ c.maxPayload.toNat) ∧
    (c.serve respond past rounds).results.map Prod.snd =
      replies respond past ((c.serve respond past rounds).results.map Prod.fst) ∧
    ∃ taken sent, Answers readFails writeFails c.maxPayload
        (c.serve respond past rounds).results (c.serve respond past rounds).fault taken sent ∧
      pending c.transport = taken ++ pending (c.serve respond past rounds).channel.transport ∧
      written (c.serve respond past rounds).channel.transport = written c.transport ++ sent := by
  induction rounds generalizing c past with
  | zero =>
    refine ⟨List.forall_mem_nil _, rfl, _, _, .finished, ?_, ?_⟩
    · exact ByteArray.empty_append.symm
    · exact ByteArray.append_empty.symm
  | succ rounds ih =>
    rw [Channel.serve]
    obtain ⟨b, htaken, hmax, hpending, hwritten⟩ := h.receive c
    generalize c.receive.channel = c₁ at hmax hpending hwritten ⊢
    cases hreceived : c.receive.result with
    | error e =>
      rw [hreceived] at htaken
      -- No request: the server stops with a part of one at most.
      refine ⟨List.forall_mem_nil _, rfl, b, _, htaken.answers, hpending, ?_⟩
      rw [ByteArray.append_empty, hwritten]
    | ok request =>
      rw [hreceived] at htaken
      cases htaken with
      | whole hle =>
      dsimp only
      obtain ⟨b', hsent, hmax', hpending', hwritten'⟩ :=
        h.send c₁ (respond (past ++ [request.bytes]))
      rw [hmax] at hsent hmax'
      rw [← hpending'] at hpending
      rw [hwritten] at hwritten'
      cases hresult : (c₁.send (respond (past ++ [request.bytes]))).result with
      | error e =>
        rw [hresult] at hsent
        -- No response: the request counts as received, though its response is not all sent.
        refine ⟨?_, rfl, _, b', hsent.answers, hpending, hwritten'⟩
        exact List.forall_mem_cons.mpr ⟨hle, List.forall_mem_nil _⟩
      | ok count =>
        rw [hresult] at hsent
        obtain ⟨⟩ := hsent
        generalize (c₁.send (respond (past ++ [request.bytes]))).channel = c₂ at *
        -- The rest of the run has one request more behind it.
        obtain ⟨hles, hreplies, taken, sent, hanswers, hrest, hrest'⟩ :=
          ih (past ++ [request.bytes]) c₂
        rw [hmax'] at hles hanswers
        refine ⟨List.forall_mem_cons.mpr ⟨hle, hles⟩, congrArg (_ :: ·) hreplies, _, _,
          hanswers.cons (request.bytes, _), ?_, ?_⟩
        · rw [hpending, hrest, ByteArray.append_assoc]
        · rw [hrest', hwritten', ByteArray.append_assoc]

end

end ClassRelay
