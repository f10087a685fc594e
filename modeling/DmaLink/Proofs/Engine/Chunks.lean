import DmaLink.Proofs.Engine.Traces
import DmaLink.Script

namespace DmaLink

/-- A device that shows a memory in its destination window: loads are answered by it and leave it as
    it is. It may change during any other access. -/
structure Device.Displays {σ : Type} [Device σ] (destination : σ → Window) : Prop where
  reply_load : ∀ start len (link : σ),
    (Device.answer (.window .s2mm (.load start len)) link).1 = (destination link).load start len
  destination_load : ∀ start len (link : σ),
    destination (Device.answer (.window .s2mm (.load start len)) link).2 = destination link

/-- A link with given status answers shows a memory in its destination window. -/
theorem Script.displays : Device.Displays Script.destination where
  reply_load _ _ _ := rfl
  destination_load _ _ _ := rfl

namespace Engine

/-- A chunk that was taken: the word that was looked at and the words that were copied. -/
structure Chunk where
  last : UInt64
  words : List UInt64

namespace Chunk

/-- What is loaded for a chunk. -/
def loads (chunk : Chunk) : List (Except LinkError (List UInt64)) :=
  [.ok [chunk.last], .ok chunk.words]

/-- Whether more chunks of the layer follow. -/
def Open (chunk : Chunk) : Prop := Word.endsLayer chunk.last = false

end Chunk

section Accesses

variable (e : Engine) (half : Half)

/-- The accesses that arm a destination half. -/
def arming : List Link.Access := launching .s2mm (e.destination.address half) e.chunkBytes

/-- The access that looks at the last word of a half. -/
def looking : Link.Access :=
  .window .s2mm (.load (e.destination.offset half + e.destination.halfWords - 1) 1)

/-- The access that copies a half. -/
def copying : Link.Access :=
  .window .s2mm (.load (e.destination.offset half) e.destination.halfWords)

/-- The accesses that take the chunk in an armed half. -/
def taking : List Link.Access :=
  Completion.polling .s2mm e.limit true ++ [e.looking half, e.copying half]

end Accesses

/-- How taking the chunk in an armed half can fail. -/
inductive Miss where
  | late
  | unseen (cause : LinkError)
  | uncopied (last : UInt64) (cause : LinkError)

namespace Miss

/-- The accesses of a failed attempt at a chunk. -/
def accesses (e : Engine) (half : Half) : Miss → List Link.Access
  | late => Completion.polling .s2mm e.limit false
  | unseen _ => Completion.polling .s2mm e.limit true ++ [e.looking half]
  | uncopied _ _ => e.taking half

/-- What is waited for in a failed attempt at a chunk. -/
def waits : Miss → List Bool
  | late => [false]
  | _ => [true]

/-- What is loaded in a failed attempt at a chunk. -/
def loads : Miss → List (Except LinkError (List UInt64))
  | late => []
  | unseen cause => [.error cause]
  | uncopied last cause => [.ok [last], .error cause]

/-- The error that a failed attempt at a chunk ends in. -/
def cause (e : Engine) : Miss → LinkError
  | late => .channelTimeout .s2mm e.limit
  | unseen cause => cause
  | uncopied _ cause => cause

end Miss

/-- How a reception ends behind the chunks that it took. -/
inductive Stop where
  | complete
  | failed (miss : Miss)
  | unfinished

namespace Stop

/-- The accesses behind those for the chunks that were taken. -/
def accesses (e : Engine) (half : Half) : Stop → List Link.Access
  | complete => []
  | failed miss => e.arming half ++ miss.accesses e half
  | unfinished => e.arming half

def waits : Stop → List Bool
  | failed miss => miss.waits
  | _ => []

def loads : Stop → List (Except LinkError (List UInt64))
  | failed miss => miss.loads
  | _ => []

/-- How a reception ends after so many bytes. -/
def ending (e : Engine) (bytes : Nat) : Stop → Reception.Ending
  | complete => .complete bytes
  | failed miss => .failed (miss.cause e)
  | unfinished => .unfinished

theorem eq_unfinished {e : Engine} {bytes : Nat} {stop : Stop}
    (hending : stop.ending e bytes = .unfinished) : stop = .unfinished := by
  cases stop with
  | unfinished => rfl
  | _ => cases hending

/-- The chunks behind which a reception of at most `bound` chunks can end: it is complete with the
    first that ends the layer, and otherwise none of them does. -/
def Behind (bound : Nat) (taken : List Chunk) : Stop → Prop
  | complete => ∃ before chunk, taken = before ++ [chunk] ∧ (∀ c ∈ before, c.Open) ∧ ¬chunk.Open
  | failed _ => ∀ chunk ∈ taken, chunk.Open
  | unfinished => taken.length = bound ∧ ∀ chunk ∈ taken, chunk.Open

/-- A stop that lies behind some chunks lies behind them and an open chunk ahead of them. -/
theorem Behind.cons {stop : Stop} {bound : Nat} {taken : List Chunk} {chunk : Chunk}
    (hopen : chunk.Open) (hbehind : stop.Behind bound taken) :
    stop.Behind (bound + 1) (chunk :: taken) := by
  cases stop with
  | complete =>
    obtain ⟨before, last, rfl, hbefore, hlast⟩ := hbehind
    exact ⟨chunk :: before, last, rfl, List.forall_mem_cons.2 ⟨hopen, hbefore⟩, hlast⟩
  | failed miss => exact List.forall_mem_cons.2 ⟨hopen, hbehind⟩
  | unfinished =>
    exact ⟨congrArg (· + 1) hbehind.1, List.forall_mem_cons.2 ⟨hopen, hbehind.2⟩⟩

end Stop

variable {σ : Type} [Device σ] {e : Engine} {half : Half} {link : σ}

/-- Arming a half is two writes. -/
theorem exists_goes_arm (e : Engine) (half : Half) (link : σ) :
    ∃ trace after, (e.arm half).Goes link trace () after ∧
      Trace.Shows trace (e.arming half) [] [] [] := by
  obtain ⟨after, hgoes⟩ := exists_goes_launch .s2mm (e.destination.address half) e.chunkBytes link
  exact ⟨_, after, hgoes, rfl, rfl, rfl, fun _ => rfl⟩

/-- A load from the destination window, as a trace shows it. -/
theorem shows_load (start len : Nat) (link : σ) {reply : Except LinkError (Vector UInt64 len)}
    (hreply : (Device.answer (.window .s2mm (.load start len)) link).1 = reply) :
    Trace.Shows [⟨.window .s2mm (.load start len), link⟩] [.window .s2mm (.load start len)] []
      [reply.map Vector.toList] [] := by
  subst hreply
  exact ⟨rfl, rfl, rfl, fun _ => rfl⟩

/-- Looking at the last word of a half loads it. -/
theorem goes_last (s : Split) (half : Half) (link : σ) {reply : Except LinkError (Vector UInt64 1)}
    (hreply : (Device.answer (.window .s2mm (.load (s.offset half + s.halfWords - 1) 1)) link).1 =
      reply) :
    (Proc.onWindow .s2mm (s.last half)).Goes link
      [⟨.window .s2mm (.load (s.offset half + s.halfWords - 1) 1), link⟩] (reply.map Window.only)
      (Device.answer (.window .s2mm (.load (s.offset half + s.halfWords - 1) 1)) link).2 := by
  unfold Split.last
  rw [Proc.onWindow_bind]
  apply Proc.Goes.onWindow_bind hreply
  cases reply <;> exact Proc.goes_ret _ _

/-- Draining a half is one load. -/
theorem goes_drain (s : Split) (half : Half) (link : σ)
    {reply : Except LinkError (Vector UInt64 s.halfWords)}
    (hreply : (Device.answer (.window .s2mm (.load (s.offset half) s.halfWords)) link).1 = reply) :
    (Proc.onWindow .s2mm (s.drain half)).Goes link
      [⟨.window .s2mm (.load (s.offset half) s.halfWords), link⟩] reply
      (Device.answer (.window .s2mm (.load (s.offset half) s.halfWords)) link).2 := by
  subst hreply
  exact ⟨rfl, rfl⟩

theorem toList_eq_only (words : Vector UInt64 1) : words.toList = [Window.only words] := by
  obtain ⟨⟨entries⟩, hsize⟩ := words
  obtain ⟨word, rfl⟩ := List.length_eq_one_iff.1 hsize
  rfl

/-- What is at the end of a range that can be loaded is what a look there gives. -/
theorem getLast?_of_load {w : Window} {start len : Nat} {last : Vector UInt64 1}
    {words : Vector UInt64 len} (hlen : 0 < len) (hlast : w.load (start + len - 1) 1 = .ok last)
    (hwords : w.load start len = .ok words) : words.toList.getLast? = some (Window.only last) := by
  unfold Window.load at hlast hwords
  split at hwords
  · next hrange =>
    rw [dif_pos (by omega)] at hlast
    obtain rfl := Except.ok.inj hlast
    obtain rfl := Except.ok.inj hwords
    have hsize : w.size = w.words.size := rfl
    have hplace : start + (len - 1) = start + len - 1 := by omega
    rw [List.getLast?_eq_getElem?, Vector.length_toList, Window.only]
    simp only [Vector.toList_mk, Array.getElem?_toList, Vector.getElem_mk, Array.getElem_extract]
    rw [Array.getElem?_extract, if_pos (by omega), hplace]
    exact Array.getElem?_eq_getElem _
  · cases hwords

/-- The chunk in an armed half is taken, or the attempt fails in one of three ways. -/
theorem exists_goes_takeChunk (hmode : e.mode = .poll) (hpositive : 0 < e.destination.halfWords)
    (half : Half) (link : σ) :
    (∃ (chunk : Chunk) (trace : List (Step σ)) (after : σ),
      (e.takeChunk half).Goes link trace (.ok (chunk.last, chunk.words)) after ∧
      Trace.Shows trace (e.taking half) [true] chunk.loads [] ∧
      chunk.words.length = e.destination.halfWords ∧
      ∀ destination : σ → Window, Device.Displays destination →
        chunk.words.getLast? = some chunk.last) ∨
    ∃ (miss : Miss) (trace : List (Step σ)) (after : σ),
      (e.takeChunk half).Goes link trace (.error (miss.cause e)) after ∧
      Trace.Shows trace (miss.accesses e half) miss.waits miss.loads [] := by
  obtain ⟨finished, waited, looked, hwait, hwaited⟩ :=
    Completion.exists_goes_poll .s2mm e.limit link
  unfold takeChunk
  rw [hmode]
  cases finished with
  | false =>
    refine .inr ⟨.late, _, _, hwait.bind (Proc.goes_ret _ _), ?_⟩
    rw [List.append_nil]
    exact hwaited
  | true =>
    let start := e.destination.offset half
    let len := e.destination.halfWords
    let copied := (Device.answer (.window .s2mm (.load (start + len - 1) 1)) looked).2
    rcases hlast : (Device.answer (.window .s2mm (.load (start + len - 1) 1)) looked).1 with
      cause | last
    · have hlook := goes_last e.destination half looked hlast
      have hlooked := shows_load (start + len - 1) 1 looked hlast
      refine .inr ⟨.unseen cause, _, _, hwait.bind (hlook.bind (Proc.goes_ret _ _)), ?_⟩
      rw [List.append_nil]
      exact hwaited.append hlooked
    · have hlook := goes_last e.destination half looked hlast
      have hlooked := shows_load (start + len - 1) 1 looked hlast
      have hseen : (Except.ok last).map Vector.toList =
          (.ok [Window.only last] : Except LinkError (List UInt64)) :=
        congrArg Except.ok (toList_eq_only last)
      rw [hseen] at hlooked
      rcases hwords : (Device.answer (.window .s2mm (.load start len)) copied).1 with cause | words
      · have hdrain := goes_drain e.destination half copied hwords
        have hdrained := shows_load start len copied hwords
        refine .inr ⟨.uncopied (Window.only last) cause, _, _,
          hwait.bind (hlook.bind (hdrain.bind (Proc.goes_ret _ _))), ?_⟩
        rw [List.append_nil]
        exact hwaited.append (hlooked.append hdrained)
      · have hdrain := goes_drain e.destination half copied hwords
        have hdrained := shows_load start len copied hwords
        refine .inl ⟨⟨Window.only last, words.toList⟩, _, _,
          hwait.bind (hlook.bind (hdrain.bind (Proc.goes_ret _ _))), ?_, words.length_toList, ?_⟩
        · rw [List.append_nil]
          exact hwaited.append (hlooked.append hdrained)
        · intro destination hdisplays
          have hloaded := (hdisplays.reply_load (start + len - 1) 1 looked).symm.trans hlast
          have hloaded' := (hdisplays.reply_load start len copied).symm.trans hwords
          rw [hdisplays.destination_load] at hloaded'
          exact getLast?_of_load hpositive hloaded hloaded'

section Loop

variable (e : Engine) (buffer : List UInt64) (bound : Nat) (half : Half)
  (before : List (List UInt64))

/-- Arms a half and takes chunks from there on, as a reception does from the lower half. -/
def takeFrom : Proc Link.io Reception := do
  e.arm half
  e.receiveChunks buffer bound half before

/-- A reception takes a chunk. The chunk ends the layer, or the other half is armed and the
    reception goes on. -/
theorem receiveChunks_succ :
    e.receiveChunks buffer (bound + 1) half before = (e.takeChunk half >>= fun
      | .error cause => .ret ⟨buffer ++ before.reverse.flatten, .failed cause⟩
      | .ok (last, words) =>
        if Word.endsLayer last then
          .ret ⟨buffer ++ (words :: before).reverse.flatten,
            .complete ((words :: before).reverse.flatten.length * wordBytes)⟩
        else e.takeFrom buffer bound half.other (words :: before)) := rfl

end Loop

/-- From a half that is armed on, chunks are taken from halves in turn up to the first that ends the
    layer or is missed. -/
theorem exists_goes_takeFrom (hmode : e.mode = .poll) (hpositive : 0 < e.destination.halfWords)
    (buffer : List UInt64) (bound : Nat) (half : Half) (before : List (List UInt64)) (link : σ) :
    ∃ (taken : List Chunk) (stop : Stop) (trace : List (Step σ)) (after : σ),
      let words := before.reverse.flatten ++ taken.flatMap Chunk.words
      (e.takeFrom buffer bound half before).Goes link trace
        ⟨buffer ++ words, stop.ending e (words.length * wordBytes)⟩ after ∧
      Trace.Shows trace
        ((List.range taken.length).flatMap (fun i =>
            e.arming (half.after i) ++ e.taking (half.after i)) ++
          stop.accesses e (half.after taken.length))
        (List.replicate taken.length true ++ stop.waits)
        (taken.flatMap Chunk.loads ++ stop.loads) [] ∧
      stop.Behind bound taken ∧
      (∀ chunk ∈ taken, chunk.words.length = e.destination.halfWords) ∧
      ∀ destination : σ → Window, Device.Displays destination →
        ∀ chunk ∈ taken, chunk.words.getLast? = some chunk.last := by
  -- The chunks taken before are generalised, since the buffer is put together only at the end.
  induction bound generalizing half before link with
  | zero =>
    obtain ⟨armed, after, harm, harmed⟩ := exists_goes_arm e half link
    have hgoes : (e.takeFrom buffer 0 half before).Goes link (armed ++ [])
        ⟨buffer ++ before.reverse.flatten, .unfinished⟩ after := harm.bind (Proc.goes_ret _ _)
    rw [List.append_nil] at hgoes
    refine ⟨[], .unfinished, armed, after, ?_, harmed, ⟨rfl, nofun⟩, nofun, fun _ _ => nofun⟩
    simp only [List.flatMap_nil, List.append_nil]
    exact hgoes
  | succ bound ih =>
    obtain ⟨armed, waiting, harm, harmed⟩ := exists_goes_arm e half link
    rcases exists_goes_takeChunk hmode hpositive half waiting with
      ⟨chunk, trace, after, htake, htaken, hlength, hlast⟩ | ⟨miss, trace, after, htake, htaken⟩
    · by_cases hopen : chunk.Open
      · obtain ⟨taken, stop, trace', after', hgoes, hshows, hbehind, hlengths, hlasts⟩ :=
          ih half.other (chunk.words :: before) after
        have hwords : (chunk.words :: before).reverse.flatten ++ taken.flatMap Chunk.words =
            before.reverse.flatten ++ (chunk :: taken).flatMap Chunk.words := by
          simp
        have hon := hgoes
        rw [hwords] at hon
        refine ⟨chunk :: taken, stop, armed ++ (trace ++ trace'), after', ?_, ?_,
          hbehind.cons hopen, List.forall_mem_cons.2 ⟨hlength, hlengths⟩,
          fun destination hdisplays => List.forall_mem_cons.2
            ⟨hlast destination hdisplays, hlasts destination hdisplays⟩⟩
        · refine harm.bind (htake.bind ?_)
          change (ite (Word.endsLayer chunk.last = true) _ _ : Proc Link.io Reception).Goes _ _ _ _
          rw [if_neg (by rw [hopen]; decide)]
          exact hon
        · have hall := harmed.append (htaken.append hshows)
          simpa [List.range_succ_eq_map, List.flatMap_map, Half.after, List.replicate_succ]
            using hall
      · have hwords : (chunk.words :: before).reverse.flatten =
            before.reverse.flatten ++ [chunk].flatMap Chunk.words := by
          simp
        refine ⟨[chunk], .complete, armed ++ (trace ++ []), after, ?_, ?_,
          ⟨[], chunk, rfl, nofun, hopen⟩, List.forall_mem_singleton.2 hlength,
          fun destination hdisplays => List.forall_mem_singleton.2 (hlast destination hdisplays)⟩
        · refine harm.bind (htake.bind ?_)
          change (ite (Word.endsLayer chunk.last = true) _ _ : Proc Link.io Reception).Goes _ _ _ _
          rw [if_pos (Bool.not_eq_false _ ▸ hopen), hwords]
          exact Proc.goes_ret _ _
        · have hall := harmed.append htaken
          simpa [Half.after, Stop.accesses, Stop.waits, Stop.loads] using hall
    · refine ⟨[], .failed miss, armed ++ (trace ++ []), after, ?_, ?_, nofun, nofun,
        fun _ _ => nofun⟩
      · refine harm.bind (htake.bind ?_)
        simp only [List.flatMap_nil, List.append_nil]
        exact Proc.goes_ret _ _
      · rw [List.append_nil]
        exact harmed.append htaken

/-- A reception that does not use up its bound on chunks goes the same way with a larger one. -/
theorem goes_takeFrom_add {buffer : List UInt64} {bound : Nat} {before : List (List UInt64)}
    {trace : List (Step σ)} {reception : Reception} {after : σ}
    (hgoes : (e.takeFrom buffer bound half before).Goes link trace reception after)
    (hfinished : reception.ending ≠ .unfinished) (more : Nat) :
    (e.takeFrom buffer (bound + more) half before).Goes link trace reception after := by
  induction bound generalizing half before link trace with
  | zero =>
    obtain ⟨_, armed, _, _, -, hrest, -⟩ := hgoes.exists_of_bind
    exact absurd (congrArg Reception.ending (Prod.mk.inj hrest.run_eq).1).symm hfinished
  | succ bound ih =>
    obtain ⟨_, armed, _, _, harm, hrest, rfl⟩ := hgoes.exists_of_bind
    rw [Nat.succ_add]
    refine harm.bind ?_
    rw [receiveChunks_succ] at hrest ⊢
    obtain ⟨_, taken, result, _, htake, hnext, rfl⟩ := hrest.exists_of_bind
    refine htake.bind ?_
    rcases result with cause | ⟨last, words⟩
    · exact hnext
    · by_cases hlast : Word.endsLayer last = true
      · simp only [hlast, if_true] at hnext ⊢
        exact hnext
      · simp only [hlast] at hnext ⊢
        exact ih hnext

theorem length_words {taken : List Chunk} {count : Nat}
    (hlengths : ∀ chunk ∈ taken, chunk.words.length = count) :
    (taken.flatMap Chunk.words).length = taken.length * count := by
  rw [List.length_flatMap, List.map_congr_left hlengths, List.map_const', List.sum_replicate_nat]

end Engine

namespace Session

open Engine

variable {σ : Type} [Device σ] {g : Geometry} {e : Engine}

/-- A reception takes chunks of the read length from alternating halves. Each is armed by its
    address and its length, acknowledged by two writes once its wait has succeeded, looked at and
    copied, all before the next is armed. It is complete with the first chunk whose last word ends
    the layer, and ends early with the first wait, look or copy that fails and with its error, after
    which nothing is written. Either way exactly the chunks taken by then stand behind the old
    contents of the buffer. The bound on the chunks matters only if it is used up. -/
theorem chunks_of_receive (hcreate : Engine.create .poll g = .ok e) (link : σ)
    (operations : List Operation) (bound : Nat) (buffer : List UInt64) :
    let s := (performAll ⟨e, link⟩ operations).2
    let length := s.engine.readLength
    let half j := Half.a.after j
    let program := s.engine.receive bound buffer
    let trace := program.trace s.link
    (∀ j, (s.engine.arming (half j)).flatMap Link.Access.written =
          [(0x48, g.destinationBase.toNat + j % 2 * length), (0x58, length)] ∧
        s.engine.looking (half j) =
          .window .s2mm (.load (j % 2 * (length / 8) + length / 8 - 1) 1) ∧
        s.engine.copying (half j) =
          .window .s2mm (.load (j % 2 * (length / 8)) (length / 8))) ∧
    ∃ (taken : List Chunk) (stop : Stop), stop.Behind bound taken ∧
      Trace.accesses trace =
        (List.range taken.length).flatMap (fun j =>
          s.engine.arming (half j) ++ s.engine.taking (half j)) ++
        stop.accesses s.engine (half taken.length) ∧
      Trace.waits trace = List.replicate taken.length true ++ stop.waits ∧
      Trace.loads trace = taken.flatMap Chunk.loads ++ stop.loads ∧
      (program.run Device.answer s.link).1 =
        ⟨buffer ++ taken.flatMap Chunk.words, stop.ending s.engine (taken.length * length)⟩ ∧
      (stop ≠ .unfinished → ∀ more,
        (s.engine.receive (bound + more) buffer).trace s.link = trace ∧
          (s.engine.receive (bound + more) buffer).run Device.answer s.link =
            program.run Device.answer s.link) ∧
      ∀ destination : σ → Window, Device.Displays destination →
        ∀ chunk ∈ taken, chunk.words.getLast? = some chunk.last := by
  intro s length half program trace
  obtain ⟨haccepted, hmode, -⟩ : s.engine.Created .poll g :=
    created_performAll (s := ⟨e, link⟩) (created_create hcreate) operations
  have hlength : length = 8 * s.engine.destination.halfWords := by
    rw [Nat.mul_comm]
    exact haccepted.chunk.symm
  have hhalf : length / 8 = s.engine.destination.halfWords := by omega
  have hoffset j : s.engine.destination.offset (half j) = j % 2 * (length / 8) := by
    rw [hhalf]
    exact (s.engine.destination.offset_after j).1
  refine ⟨fun j => ⟨?_, ?_, ?_⟩, ?_⟩
  · have harming := written_launching haccepted.destination .s2mm (half j) haccepted.chunk_le
    have hplace : 8 * (j % 2 * (length / 8)) = j % 2 * length := by
      rw [Nat.mul_left_comm, hhalf, ← hlength]
    rw [hoffset, hplace, ← hlength] at harming
    exact harming
  · rw [looking, hoffset, hhalf]
  · rw [copying, hoffset, hhalf]
  · obtain ⟨taken, stop, trace', after, hgoes, hshows, hbehind, hlengths, hlasts⟩ :=
      exists_goes_takeFrom hmode haccepted.destination.positive buffer bound .a [] s.link
    have hbytes : (taken.flatMap Chunk.words).length * wordBytes = taken.length * length := by
      rw [length_words hlengths, hlength, Nat.mul_assoc, Nat.mul_comm _ wordBytes, wordBytes]
    simp only [List.reverse_nil, List.flatten_nil, List.nil_append, hbytes] at hgoes
    obtain rfl : trace = trace' := hgoes.trace_eq
    refine ⟨taken, stop, hbehind, hshows.accesses_eq, hshows.waits_eq, hshows.loads_eq,
      congrArg Prod.fst hgoes.run_eq, fun hfinished more => ?_, hlasts⟩
    have hending : stop.ending s.engine (taken.length * length) ≠ .unfinished :=
      mt Stop.eq_unfinished hfinished
    have hmore := goes_takeFrom_add hgoes hending more
    exact ⟨hmore.trace_eq, hmore.run_eq.trans hgoes.run_eq.symm⟩

/-- After a chunk that does not end the layer, the wait for the next times out. -/
theorem chunks_of_receive_timedOut :
    ∃ e, Engine.create .poll ⟨6, Loopback.sourceBase, 256, Loopback.destinationBase, 2⟩ = .ok e ∧
      let link : Script := ⟨.zeroed 6, .zeroed 256, [0x1002], [0x1002], #[]⟩
      let s := (performAll ⟨e, link⟩ [.initialise 1024]).2
      let program := s.engine.receive 3 [9]
      Trace.waits (program.trace s.link) = [true, false] ∧
      (program.run Device.answer s.link).1.buffer.length = 129 ∧
      ∃ (taken : List Chunk) (stop : Stop), stop.Behind 3 taken ∧
        Trace.waits (program.trace s.link) = List.replicate taken.length true ++ stop.waits ∧
        (program.run Device.answer s.link).1 = ⟨[9] ++ taken.flatMap Chunk.words,
          stop.ending s.engine (taken.length * s.engine.readLength)⟩ ∧
        ∀ chunk ∈ taken, chunk.words.getLast? = some chunk.last := by
  have hcreate := create_small .poll
  refine ⟨_, hcreate, ?_⟩
  intro link s program
  obtain ⟨-, taken, stop, hbehind, -, hwaits, -, hresult, -, hlasts⟩ :=
    chunks_of_receive hcreate link [.initialise 1024] 3 [9]
  refine ⟨?_, ?_, taken, stop, hbehind, hwaits, ?_, hlasts Script.destination Script.displays⟩
  · decide +kernel
  · decide +kernel
  · rw [hresult]

end Session

end DmaLink
