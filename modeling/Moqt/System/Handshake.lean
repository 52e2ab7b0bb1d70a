import Moqt.Library.Exchange
import Moqt.Web.Request

/-! The SETUP exchange between the relay and a client, in Rust or in the browser.  Each side writes
its SETUP on a stream of its own before it waits for the other's. -/

namespace Moqt.System

open Library Moqt.Wire

/-! ### The two sides -/

inductive Client where
  | rust
  | browser
deriving DecidableEq, Repr

/-- The SETUP of `MoqtSession::connect`. -/
def connectSetup : SetupMessage := ⟨[.path (Web.utf8 "/"), .authority (Web.utf8 "localhost")]⟩

/-- The SETUP of `MoqtSession::accept`. -/
def acceptSetup : SetupMessage := ⟨[]⟩

/-- What `write_setup` writes. -/
def setupFrame (m : SetupMessage) : Bytes :=
  match m.encode with
  | .ok frame => frame
  | .err _ | .panic _ => []

/-- What a side has read. -/
inductive ReadSetup where
  | rust (m : SetupMessage)
  | browser (m : Web.SetupMessage)
deriving DecidableEq, Repr

/-- What `read_setup` returns when `front` is there of the stream. -/
def readFront (front : Bytes) : Option ReadSetup :=
  if h : front.length < 2 ^ 62 then
    (readSetup { bytes := front, ending := .finished, fits := h }).toOption.map (.rust ·.1)
  else none

/-- What the browser's `setupExchange` reads. -/
def browserSetup : ChunkReader Web.SetupMessage := do
  let frame ← Web.StreamReader.readMessageFrame
  ChunkReader.ofOutcome (Web.decodeSetup frame)

def browserReadFront (front : Bytes) : Option ReadSetup :=
  match browserSetup { chunks := [front], ending := .finished } with
  | .ok (m, _) => some (.browser m)
  | .err _ | .panic _ => none

/-- The client is the first party, and the relay the second one. -/
def setupExchange (client : Client) : Exchange ReadSetup where
  word
    | .first =>
      match client with
      | .rust => setupFrame connectSetup
      -- `encodeSetup` of no options
      | .browser => Web.encodeMessage Web.MSG_SETUP []
    | .second => setupFrame acceptSetup
  read
    | .first =>
      match client with
      | .rust => readFront
      | .browser => browserReadFront
    | .second => readFront

/-- What a side reads in the end. -/
def Client.reads (client : Client) : Party → ReadSetup
  | .first =>
    match client with
    | .rust => .rust acceptSetup
    | .browser => .browser ⟨[]⟩
  | .second =>
    match client with
    | .rust => .rust connectSetup
    | .browser => .rust ⟨[]⟩

/-! ### Fronts -/

theorem withinLimits_connectSetup : connectSetup.WithinLimits where
  sorted := by decide
  kinds := by simp [connectSetup, SetupOption.toKeyValuePair, KeyValuePair.kindFits, OPTION_PATH,
    OPTION_AUTHORITY]
  values := by
    intro o ho value hvalue
    simp only [connectSetup, List.mem_cons, List.not_mem_nil, or_false] at ho
    rcases ho with rfl | rfl
    all_goals
      obtain rfl := KvValue.bytes.inj hvalue
      decide
  named typeId value h := by simp [connectSetup] at h
  payload := by decide

theorem withinLimits_acceptSetup : acceptSetup.WithinLimits where
  sorted := .nil
  kinds _ h := by cases h
  values _ h := by cases h
  named _ _ h := by cases h
  payload := by decide

/-- The relay and a Rust client read a SETUP once it is there as a whole. -/
theorem readFront_of_awaits {m : SetupMessage} {w : Bytes} (h : readSetup.Awaits w m)
    (hw : w.length < 2 ^ 62) : readFront w = some (.rust m) ∧
      ∀ front, front <+: w → front ≠ w → readFront front = none := by
  constructor
  · obtain ⟨t, hsplits, -⟩ := ByteStream.exists_splits
      (s := { bytes := w, ending := .finished, fits := hw }) (List.append_nil w).symm
    rw [readFront, dif_pos hw, Reader.toOption_eq_some.mpr (h.takes _ t hsplits)]
    rfl
  · intro front hfront hne
    have hlt : front.length < w.length := by
      refine Nat.lt_of_le_of_ne hfront.length_le fun heq => hne (hfront.eq_of_length heq)
    obtain ⟨e, he⟩ := h.starves { bytes := front, ending := .finished, fits := hlt.trans hw }
      hfront hlt
    rw [readFront, dif_pos (hlt.trans hw), he]
    rfl

theorem browserReadFront_of_awaits {m : Web.SetupMessage} {w : Bytes}
    (h : browserSetup.Awaits w m) : browserReadFront w = some (.browser m) ∧
      ∀ front, front <+: w → front ≠ w → browserReadFront front = none := by
  have hbytes (front : Bytes) :
      Chunked.bytes { chunks := [front], ending := .finished } = front := by
    simp [Chunked.bytes]
  constructor
  · obtain ⟨r', hr', -⟩ := h.takes { chunks := [w], ending := .finished } []
      ((hbytes w).trans (List.append_nil w).symm)
    rw [browserReadFront, hr']
  · intro front hfront hne
    have hlt : front.length < w.length := by
      refine Nat.lt_of_le_of_ne hfront.length_le fun heq => hne (hfront.eq_of_length heq)
    have hstarves := h.starves { chunks := [front], ending := .finished }
      (by rwa [hbytes]) (by rwa [hbytes])
    rw [browserReadFront]
    split
    next m r' hok => exact absurd hok (hstarves m r')
    all_goals rfl

/-- The browser reads the relay's SETUP. -/
theorem browserSetup_awaits : browserSetup.Awaits (setupFrame acceptSetup) ⟨[]⟩ := by
  have hframe : setupFrame acceptSetup = [0xaf, 0, 0, 0] := by decide
  have hdecode : Web.decodeSetup [0xaf, 0, 0, 0] = .ok ⟨[]⟩ := by decide
  have hwhole : Web.IsFrame [0xaf, 0] [] [] [0xaf, 0, 0, 0] :=
    ⟨⟨0xaf, [0], rfl, by decide⟩, 0, 0, rfl, rfl⟩
  rw [hframe]
  refine (Web.StreamReader.readMessageFrame_reads.bind fun frame =>
    .ofOutcome (Web.decodeSetup frame)).awaits ?_
  exact ⟨_, _, [], ⟨rfl, _, _, hwhole⟩, ⟨hdecode, rfl⟩, (List.append_nil _).symm⟩

/-- Each side makes of the other's SETUP what it is. -/
theorem setupExchange_awaits (client : Client) : (setupExchange client).Awaits client.reads := by
  have haccept : readSetup.Awaits (setupFrame acceptSetup) acceptSetup :=
    withinLimits_acceptSetup.awaits rfl
  have hconnect : readSetup.Awaits (setupFrame connectSetup) connectSetup :=
    withinLimits_connectSetup.awaits rfl
  have haccept := readFront_of_awaits haccept (by decide)
  have hconnect := readFront_of_awaits hconnect (by decide)
  have hbrowser := browserReadFront_of_awaits browserSetup_awaits
  -- the browser's SETUP is the relay's
  have hword : Web.encodeMessage Web.MSG_SETUP [] = setupFrame acceptSetup := by decide
  constructor
  · intro p
    cases p <;> cases client <;> decide
  · intro p
    cases p with
    | first =>
      cases client with
      | rust => exact haccept.1
      | browser => exact hbrowser.1
    | second =>
      cases client with
      | rust => exact hconnect.1
      | browser =>
        change readFront (Web.encodeMessage Web.MSG_SETUP []) = _
        rw [hword]
        exact haccept.1
  · intro p
    cases p with
    | first =>
      cases client with
      | rust => exact haccept.2
      | browser => exact hbrowser.2
    | second =>
      cases client with
      | rust => exact hconnect.2
      | browser =>
        change ∀ front, front <+: Web.encodeMessage Web.MSG_SETUP [] → _
        rw [hword]
        exact haccept.2

/-- In every run of the exchange, who is done has read the other's SETUP as a whole, which the other
has written; and as long as the connection is not lost, the exchange can be brought to its end,
however many bytes come at a time. -/
theorem setup_exchanged (client : Client) (ls : List Exchange.Label) :
    (∀ p, ((setupExchange client).machine.run {} ls).phase p = .done →
      ((setupExchange client).machine.run {} ls).got p = some (client.reads p) ∧
        ((setupExchange client).machine.run {} ls).sent p.other =
          (setupExchange client).word p.other) ∧
    (((setupExchange client).machine.run {} ls).lost = false →
      (setupExchange client).machine.Forces Exchange.Label.owner (fun s => ∀ p, s.phase p = .done)
        ((setupExchange client).machine.run {} ls)) := by
  have hawaits := setupExchange_awaits client
  have hinv := Exchange.inv_of_reachable hawaits ((setupExchange client).machine.reachable_run ls)
  refine ⟨fun p hp => ⟨(hinv.done p hp).1, ?_⟩, hinv.forces hawaits⟩
  have hcame := hinv.came p
  rw [(hinv.done p hp).2] at hcame
  exact (hinv.sent_prefix p.other).eq_of_length_le hcame.length_le

-- the relay accepts the client's stream when seven bytes of it are there, and waits for the others
example : ((setupExchange .rust).machine.run {} [.proceed .first, .proceed .second, .proceed .first,
    .arrive .second 7, .proceed .second, .proceed .second, .proceed .second, .arrive .first 4,
    .proceed .first, .proceed .first]).phase = fun
      | .first => .done
      | .second => .read := by
  funext p
  cases p <;> decide +kernel

end Moqt.System
