import DmaLink.Proofs.Loopback.Halting
import DmaLink.Proofs.Queue.Lifecycle

namespace DmaLink.Queue

open Link (Launch)
open Loopback (sourceBase)

/-- Whether a start has brought the sending channel up and neither marked the queue as running nor
    been undone since. -/
def Access.unfinished (before : Bool) : Access → Bool
  | .link (.writeRegister offset word) =>
    if offset = Channel.mm2s.control then word &&& Control.run != 0 else before
  | .setRunning mark => before && !mark
  | _ => before

/-- An access that concerns neither the link nor the mark nor the engine of a queue. -/
def Access.isAside : Access → Bool
  | .link _ | .setRunning _ | .setEngine _ => false
  | _ => true

section Aside

variable {access : Access}

theorem link_answer_of_isAside (haside : access.isAside = true) (b : Bench Loopback) :
    (Bench.answer access b).2.link = b.link := by
  cases access with
  | take => exact congrArg (fun out => out.2.link) (answer_take b)
  | link access => exact nomatch haside
  | _ => rfl

theorem running_answer_of_isAside (haside : access.isAside = true) (b : Bench Loopback) :
    (Bench.answer access b).2.queue.running = b.queue.running := by
  apply running_answer
  rintro running rfl
  exact nomatch haside

theorem engine_answer (hengine : ∀ engine, access ≠ .setEngine engine) (b : Bench Loopback) :
    (Bench.answer access b).2.queue.engine = b.queue.engine := by
  cases access with
  | take => exact congrArg (fun out => out.2.queue.engine) (answer_take b)
  | setEngine engine => exact absurd rfl (hengine engine)
  | _ => rfl

theorem unfinished_of_isAside (haside : access.isAside = true) (loose : Bool) :
    access.unfinished loose = loose := by
  cases access <;> first | rfl | exact nomatch haside

/-- The more is left to halt before an access, the more is after it. -/
theorem unfinished_mono {before before' : Bool} (hbefore : before = true → before' = true)
    (hunfinished : access.unfinished before = true) : access.unfinished before' = true := by
  cases access with
  | link access =>
    cases access with
    | writeRegister offset word =>
      simp only [Access.unfinished] at hunfinished ⊢
      split at hunfinished
      · next hoffset => rwa [if_pos hoffset]
      · next hoffset => exact (if_neg hoffset).trans (hbefore hunfinished)
    | _ => exact hbefore hunfinished
  | setRunning mark =>
    obtain ⟨hbefore', hmark⟩ := Bool.and_eq_true_iff.1 hunfinished
    exact Bool.and_eq_true_iff.2 ⟨hbefore hbefore', hmark⟩
  | _ => exact hbefore hunfinished

end Aside

namespace Progress

/-- Whether the channels are being brought down, or up with the mark still to be set. -/
def isMidway : Progress → Bool
  | .marked | .half | .starting .opened => true
  | _ => false

/-- Whether nobody else may access the channels meanwhile but to read or to reset them. -/
def isSolo : Progress → Bool
  | .starting _ | .ready => true
  | _ => false

/-- What someone relies on who has come so far. -/
def Fits (d : Loopback) (loose : Bool) : Progress → Prop
  | .half => d.running .s2mm = false
  | .ready => loose = false
  | .starting (.prepared source) => source.base = sourceBase
  | .starting (.aimed source) | .starting (.launched source) =>
    source.base = sourceBase ∧ (d.port .mm2s).address = sourceBase
  | _ => True

end Progress

/-- What someone does who may be the worker, and how far it has come then. -/
inductive Deed (b : Bench Loopback) : (working : Bool) → Progress → Access → Progress → Prop where
  | aside (working : Bool) (progress : Progress) {access : Access}
      (haside : access.isAside = true) : Deed b working progress access progress
  /-- It leaves the channels as they are. -/
  | quit {progress : Progress} {access : Access} (haside : access.isAside = true)
      (hmidway : progress.isMidway = false) : Deed b false progress access .even
  | read {access : Link.Access} (hserves : access.Serves .s2mm) :
      Deed b false .even (.link access) .even
  | send {access : Link.Access} (hserves : access.Serves .mm2s) :
      Deed b true .even (.link access) .even
  | reset (channel : Channel) :
      Deed b false .even (.link (.writeRegister channel.control Control.reset)) .even
  | mark {progress progress' : Progress} (hmarks : progress.Marks progress') :
      Deed b false progress (.setRunning false) progress'
  | give : Deed b true .even (.setRunning false) .marked
  | fall (working : Bool) {word : UInt32} {channel : Channel} {progress progress' : Progress}
      (hword : word = Control.halt ∨ word = Control.reset)
      (hfalls : Progress.Falls channel progress progress') :
      Deed b working progress (.link (.writeRegister channel.control word)) progress'
  | halt : Deed b true .half (.link (.writeRegister Channel.mm2s.control Control.halt)) .even
  | prepare : Deed b false .down .engine (.starting (.prepared b.queue.engine.source))
  | configure {source : Split} {engine : Engine} (hsource : engine.source = source) :
      Deed b false (.starting (.prepared source)) (.setEngine engine) (.starting (.prepared source))
  | launch {launch launch' : Launch} {access : Link.Access} {reply : access.Reply}
      (hlaunches : launch.Moves access reply launch') :
      Deed b false (.starting launch) (.link access) (.starting launch')
  | revive : Deed b false (.starting .opened) (.setRunning true) .ready
  | forget (hstopped : b.queue.running = false) : Deed b false .even (.setRunning false) .even

/-- How far someone in a stage has come with bringing the channels down or up. -/
def Stage.progress : Stage → Progress
  | .held _ _ progress => progress
  | _ => .even

section Moves

variable {b : Bench Loopback} {stage stage' : Stage} {duty duty' : Progress} {access : Access}

/-- A channel is lowered by a halt or by a reset. -/
theorem Purpose.Lowers.word {purpose : Purpose} {word : UInt32} (hlowers : purpose.Lowers word) :
    word = Control.halt ∨ word = Control.reset := by
  cases hlowers with
  | start hword => exact hword
  | stop => exact .inl rfl

/-- Whatever a client does is a deed that its progress allows. -/
theorem Stage.Moves.deed (hmove : stage.Moves access (Bench.answer access b).1 stage')
    (hleaving : stage = .leaving → b.queue.running = false) :
    Deed b false stage.progress access stage'.progress := by
  generalize hreply : (Bench.answer access b).1 = reply at hmove
  cases hmove with
  | ask running => cases running <;> exact .aside false .even rfl
  | close running => cases running <;> exact .aside false .even rfl
  | read hdrains => exact .read hdrains.serves
  | reset channel => exact .reset channel
  | mark joined hpurpose hmarks => exact .mark hmarks
  | fall joined hlowers hfalls => exact .fall false hlowers.word hfalls
  | prepare engine =>
    obtain rfl : b.queue.engine = engine := hreply
    exact .prepare
  | configure hsource => exact .configure hsource
  | launch hlaunches => exact .launch hlaunches
  | revive => exact .revive
  | startWorker => exact .quit rfl rfl
  | unlock hleaves =>
    refine .quit rfl ?_
    cases hleaves <;> rfl
  | forget => exact .forget (hleaving rfl)
  | _ => exact .aside false _ rfl

/-- Whatever the worker does is a deed that its progress allows. -/
theorem Progress.Works.deed (hmove : duty.Works access (Bench.answer access b).1 duty') :
    Deed b true duty access duty' := by
  generalize (Bench.answer access b).1 = reply at hmove
  cases hmove with
  | send hserves => exact .send hserves
  | mark => exact .give
  | fall => exact .fall true (.inl rfl) .s2mm
  | halt => exact .halt
  | _ => exact .aside true .even rfl

end Moves

/-- Unless the queue runs, the channels are down, except that the sending one is up if a start was
    given up. -/
def Settled (b : Bench Loopback) (loose : Bool) : Prop :=
  b.queue.running = true ∨
    b.link.running .s2mm = false ∧ (b.link.running .mm2s = false ∨ loose = true)

section Words

variable {b : Bench Loopback} {loose : Bool}

/-- Transfers leave as much to halt as before. -/
theorem unfinished_of_serves {channel : Channel} {access : Link.Access}
    (hserves : access.Serves channel) (loose : Bool) :
    (Access.link access).unfinished loose = loose := by
  cases hserves with
  | awaits hawaits =>
    cases hawaits with
    | acknowledge bits => cases channel <;> rfl
    | _ => rfl
  | window access => rfl
  | address address => cases channel <;> rfl
  | length length => cases channel <;> rfl

/-- A halt or a reset of the sending channel leaves nothing of it to halt. -/
theorem unfinished_of_lowering {word : UInt32}
    (hword : word = Control.halt ∨ word = Control.reset) (channel : Channel) (loose : Bool) :
    (Access.link (.writeRegister channel.control word)).unfinished loose =
      (loose && channel == .s2mm) := by
  cases channel with
  | mm2s => obtain rfl | rfl := hword <;> exact (Bool.and_false loose).symm
  | s2mm => exact (Bool.and_true loose).symm

/-- A halt or a reset starts no channel. -/
theorem subsides_of_lowering {word : UInt32}
    (hword : word = Control.halt ∨ word = Control.reset) (channel : Channel) (d : Loopback) :
    d.Subsides (d.write channel.control word) := by
  obtain ⟨hdown, -, hports⟩ := d.write_lowering hword channel
  intro other hother
  by_cases hsame : other = channel
  · rw [hsame]
    exact hdown
  · exact (Loopback.running_of_port (hports other hsame)).trans hother

/-- What starts no channel keeps a queue settled. -/
theorem Settled.subsides {b' : Bench Loopback} (hsettled : Settled b loose)
    (hsubsides : b.link.Subsides b'.link) (hrunning : b'.queue.running = b.queue.running) :
    Settled b' loose := by
  rcases hsettled with hruns | ⟨hs2mm, hmm2s⟩
  · exact .inl (hrunning.trans hruns)
  · exact .inr ⟨hsubsides .s2mm hs2mm, hmm2s.imp_left (hsubsides .mm2s)⟩

/-- A queue that is marked as stopped and was stopped before has its channels as they were. -/
theorem Settled.mark (hsettled : Settled b loose) (hstopped : b.queue.running = false) :
    Settled (Bench.answer (.setRunning false) b).2
      ((Access.setRunning false).unfinished loose) := by
  obtain ⟨hs2mm, hmm2s⟩ := hsettled.resolve_left fun hruns => nomatch hruns.symm.trans hstopped
  rw [show (Access.setRunning false).unfinished loose = loose from Bool.and_true loose]
  exact .inr ⟨hs2mm, hmm2s⟩

/-- A halt or a reset keeps a queue settled. -/
theorem Settled.lower (hsettled : Settled b loose) {word : UInt32}
    (hword : word = Control.halt ∨ word = Control.reset) (channel : Channel) :
    Settled (Bench.answer (.link (.writeRegister channel.control word)) b).2
      ((Access.link (.writeRegister channel.control word)).unfinished loose) := by
  have hsubsides := subsides_of_lowering hword channel b.link
  rw [unfinished_of_lowering hword]
  rcases hsettled with hruns | ⟨hs2mm, hmm2s⟩
  · exact .inl hruns
  refine .inr ⟨hsubsides .s2mm hs2mm, ?_⟩
  cases channel with
  | mm2s => exact .inl (b.link.write_lowering hword .mm2s).1
  | s2mm =>
    rw [show (loose && Channel.s2mm == .s2mm) = loose from Bool.and_true loose]
    exact hmm2s.imp_left (hsubsides .mm2s)

/-- Both channels are down once the sending one is brought down after the other. -/
theorem settled_lower_mm2s {word : UInt32} (hword : word = Control.halt ∨ word = Control.reset)
    (hs2mm : b.link.running .s2mm = false) :
    Settled (Bench.answer (.link (.writeRegister Channel.mm2s.control word)) b).2 loose := by
  obtain ⟨hdown, -, hports⟩ := b.link.write_lowering hword .mm2s
  exact .inr ⟨(Loopback.running_of_port (hports .s2mm (by decide))).trans hs2mm, .inl hdown⟩

/-- A start keeps the address of the source window, and the sending channel up once it is. -/
theorem launch_spec {launch launch' : Launch} {access : Link.Access} {reply : access.Reply}
    (hlaunches : launch.Moves access reply launch') {d : Loopback}
    (hfits : (Progress.starting launch).Fits d loose) (hwindow : 0 < d.windowSize .mm2s) :
    (Progress.starting launch').Fits (d.answer access).2
        ((Access.link access).unfinished loose) ∧
      (d.answer access).2.running .mm2s = (Access.link access).unfinished (d.running .mm2s) := by
  have hsame (hserves : access.Serves .mm2s) (before : Bool) :
      (Access.link access).unfinished before = before := unfinished_of_serves hserves before
  cases hlaunches with
  | aim source =>
    obtain ⟨hup, haddress⟩ := Loopback.running_write_address d source.base
    rw [hsame (.address _), hsame (.address _), Loopback.answer_write]
    exact ⟨⟨hfits, haddress.trans hfits⟩, hup⟩
  | run source mode =>
    obtain ⟨hup, haddress, -⟩ := d.write_run_mm2s mode
    refine ⟨⟨hfits.1, haddress.trans hfits.2⟩, hup.trans ?_⟩
    cases mode <;> rfl
  | store source words result => exact ⟨hfits, rfl⟩
  | address source =>
    obtain ⟨hup, haddress⟩ := Loopback.running_write_address d source.base
    rw [hsame (.address _), hsame (.address _), Loopback.answer_write]
    exact ⟨⟨hfits.1, haddress.trans hfits.1⟩, hup⟩
  | length source =>
    obtain ⟨hup, haddress⟩ := Loopback.running_write_length hfits.2 hwindow
    rw [hsame (.length _), hsame (.length _), Loopback.answer_write]
    exact ⟨⟨hfits.1, haddress.trans hfits.2⟩, hup⟩
  | await source hawaits =>
    obtain ⟨-, hup, haddress⟩ := d.agreesBut_of_awaits hawaits
    rw [hsame (.awaits hawaits), hsame (.awaits hawaits)]
    exact ⟨⟨hfits.1, haddress.trans hfits.2⟩, hup⟩
  | finish source mode =>
    have hup : (d.write Channel.s2mm.control mode.runWord).running .mm2s = d.running .mm2s :=
      Loopback.running_of_port (d.port_write_run_s2mm mode)
    rw [Loopback.answer_write, hup]
    exact ⟨trivial, rfl⟩

/-- A start that has not brought the receiving channel up yet keeps it down. -/
theorem Settled.launch {launch launch' : Launch} {access : Link.Access} {reply : access.Reply}
    (hlaunches : launch.Moves access reply launch') (hsettled : Settled b loose)
    (hstopped : b.queue.running = false) :
    Settled (Bench.answer (.link access) b).2 ((Access.link access).unfinished loose) ∨
      (Progress.starting launch').isMidway = true := by
  have hserves (hserves : access.Serves .mm2s) :
      Settled (Bench.answer (.link access) b).2 ((Access.link access).unfinished loose) := by
    rw [unfinished_of_serves hserves]
    exact hsettled.subsides (b.link.subsides_of_serves hserves) rfl
  cases hlaunches with
  | aim source => exact .inl (hserves (.address _))
  | run source mode =>
    have hs2mm := hsettled.resolve_left fun hruns => nomatch hruns.symm.trans hstopped
    obtain ⟨-, -, hport⟩ := b.link.write_run_mm2s mode
    refine .inl (.inr ⟨(Loopback.running_of_port hport).trans hs2mm.1, .inr ?_⟩)
    cases mode <;> rfl
  | store source words result => exact .inl (hserves (.window _))
  | address source => exact .inl (hserves (.address _))
  | length source => exact .inl (hserves (.length _))
  | await source hawaits => exact .inl (hserves (.awaits hawaits))
  | finish source mode => exact .inr rfl

end Words

/-- What who does not start the queue may do to those who rely on something. The worker may change
    the address of the sending channel besides. -/
structure Mild (b : Bench Loopback) (working : Bool) (access : Access) (loose : Bool) : Prop where
  subsides : b.link.Subsides (Bench.answer access b).2.link
  address : working = false →
    ((Bench.answer access b).2.link.port .mm2s).address = (b.link.port .mm2s).address
  loose : access.unfinished loose = true → loose = true

namespace Mild

variable {b : Bench Loopback} {working loose : Bool}

/-- What is aside from the link is mild. -/
theorem of_isAside {access : Access} (haside : access.isAside = true) :
    Mild b working access loose := by
  refine ⟨?_, fun _ => ?_, fun hloose => ?_⟩
  · rw [link_answer_of_isAside haside]
    exact .rfl
  · rw [link_answer_of_isAside haside]
  · rwa [unfinished_of_isAside haside] at hloose

theorem of_serves {channel : Channel} {access : Link.Access} (hserves : access.Serves channel)
    (haddress : working = false →
      ((b.link.answer access).2.port .mm2s).address = (b.link.port .mm2s).address) :
    Mild b working (.link access) loose := by
  refine ⟨b.link.subsides_of_serves hserves, haddress, fun hloose => ?_⟩
  rwa [unfinished_of_serves hserves] at hloose

theorem of_lowering {word : UInt32} (hword : word = Control.halt ∨ word = Control.reset)
    (channel : Channel) :
    Mild b working (.link (.writeRegister channel.control word)) loose := by
  refine ⟨subsides_of_lowering hword channel b.link,
    fun _ => (b.link.write_lowering hword channel).2.1, fun hloose => ?_⟩
  rw [unfinished_of_lowering hword] at hloose
  exact (Bool.and_eq_true_iff.1 hloose).1

theorem of_mark : Mild b working (.setRunning false) loose :=
  ⟨.rfl, fun _ => rfl, fun hloose => (Bool.and_eq_true_iff.1 hloose).1⟩

end Mild

/-- What a start leaves that is given up after it has brought the sending channel up. -/
structure Stranded (b : Bench Loopback) : Prop where
  stopped : b.queue.running = false
  up : b.link.running .mm2s = true

namespace Stranded

variable {b : Bench Loopback} {loose : Bool} (hloose : loose = true → Stranded b)
include hloose

theorem aside {access : Access} (haside : access.isAside = true)
    (hunfinished : access.unfinished loose = true) : Stranded (Bench.answer access b).2 := by
  rw [unfinished_of_isAside haside] at hunfinished
  refine ⟨(running_answer_of_isAside haside b).trans (hloose hunfinished).stopped, ?_⟩
  rw [link_answer_of_isAside haside]
  exact (hloose hunfinished).up

theorem lower {word : UInt32} (hword : word = Control.halt ∨ word = Control.reset)
    {channel : Channel} (hunfinished :
      (Access.link (.writeRegister channel.control word)).unfinished loose = true) :
    Stranded (Bench.answer (.link (.writeRegister channel.control word)) b).2 := by
  rw [unfinished_of_lowering hword] at hunfinished
  obtain ⟨hbefore, hchannel⟩ := Bool.and_eq_true_iff.1 hunfinished
  obtain rfl := eq_of_beq hchannel
  have hport := (b.link.write_lowering hword .s2mm).2.2 .mm2s (by decide)
  exact ⟨(hloose hbefore).stopped,
    (Loopback.running_of_port hport).trans (hloose hbefore).up⟩

theorem mark (hunfinished : (Access.setRunning false).unfinished loose = true) :
    Stranded (Bench.answer (.setRunning false) b).2 :=
  ⟨rfl, (hloose (Bool.and_eq_true_iff.1 hunfinished).1).up⟩

end Stranded

namespace Deed

variable {b : Bench Loopback} {working loose : Bool} {progress progress' : Progress}
  {access : Access}

/-- A deed leaves the queue settled unless it is midway. -/
theorem settled (hdeed : Deed b working progress access progress')
    (hfits : progress.Fits b.link loose)
    (hstopped : working = false → progress.isStopped = true → b.queue.running = false)
    (hsettled : Settled b loose ∨ progress.isMidway = true) :
    Settled (Bench.answer access b).2 (access.unfinished loose) ∨ progress'.isMidway = true := by
  have haside (haside : access.isAside = true) (hsettled : Settled b loose) :
      Settled (Bench.answer access b).2 (access.unfinished loose) := by
    rw [unfinished_of_isAside haside]
    refine hsettled.subsides ?_ (running_answer_of_isAside haside b)
    rw [link_answer_of_isAside haside]
    exact .rfl
  have heven (hmidway : progress.isMidway = false) : Settled b loose :=
    hsettled.resolve_right fun hmidway' => nomatch hmidway.symm.trans hmidway'
  cases hdeed with
  | aside working progress hquiet => exact hsettled.imp_left (haside hquiet)
  | quit hquiet hmidway => exact .inl (haside hquiet (heven hmidway))
  | read hserves =>
    rw [unfinished_of_serves hserves]
    exact .inl ((heven rfl).subsides (b.link.subsides_of_serves hserves) rfl)
  | send hserves =>
    rw [unfinished_of_serves hserves]
    exact .inl ((heven rfl).subsides (b.link.subsides_of_serves hserves) rfl)
  | reset channel => exact .inl ((heven rfl).lower (.inr rfl) channel)
  | give => exact .inr rfl
  | mark hmarks =>
    cases hmarks with
    | begin => exact .inr rfl
    | again => exact .inl ((heven rfl).mark (hstopped rfl rfl))
  | fall working hword hfalls =>
    cases hfalls with
    | s2mm => exact .inr rfl
    | mm2s => exact .inl (settled_lower_mm2s hword hfits)
    | again => exact .inl ((heven rfl).lower hword _)
  | halt => exact .inl (settled_lower_mm2s (.inl rfl) hfits)
  | prepare => exact .inl (haside rfl (heven rfl))
  | configure hsource => exact .inl (heven rfl)
  | @launch launch launch' access reply hlaunches =>
    exact (heven (by cases hlaunches <;> rfl)).launch hlaunches (hstopped rfl rfl)
  | revive => exact .inl (.inl rfl)
  | forget hforgets => exact .inl ((heven rfl).mark hforgets)

/-- After a deed the progress still fits the device. -/
theorem fits (hdeed : Deed b working progress access progress')
    (hfits : progress.Fits b.link loose) (hbase : b.queue.engine.source.base = sourceBase)
    (hwindow : 0 < b.link.windowSize .mm2s) :
    progress'.Fits (Bench.answer access b).2.link (access.unfinished loose) := by
  cases hdeed with
  | aside working progress haside =>
    rw [link_answer_of_isAside haside, unfinished_of_isAside haside]
    exact hfits
  | mark hmarks => cases hmarks <;> trivial
  | fall working hword hfalls =>
    cases hfalls with
    | s2mm => exact (b.link.write_lowering hword .s2mm).1
    | mm2s => trivial
    | again channel => trivial
  | prepare => exact hbase
  | configure hsource => exact hfits
  | launch hlaunches => exact (launch_spec hlaunches hfits hwindow).1
  | revive => exact Bool.and_false loose
  | _ => trivial

/-- Who does not start the queue brings no channel up. -/
theorem mild (hdeed : Deed b working progress access progress')
    (hfree : progress.isSolo = false) : Mild b working access loose := by
  cases hdeed with
  | aside working progress haside => exact .of_isAside haside
  | quit haside hmidway => exact .of_isAside haside
  | read hserves =>
    exact .of_serves hserves fun _ =>
      congrArg Loopback.Port.address (b.link.port_of_serves hserves)
  | send hserves => exact .of_serves hserves fun hnone => Bool.noConfusion hnone
  | reset channel => exact .of_lowering (.inr rfl) channel
  | mark hmarks => exact .of_mark
  | give => exact .of_mark
  | fall working hword hfalls => exact .of_lowering hword _
  | halt => exact .of_lowering (.inl rfl) .mm2s
  | prepare => exact .of_isAside rfl
  | forget hstopped => exact .of_mark
  | _ => exact nomatch hfree

/-- An unfinished start stays as it was left. -/
theorem stranded (hdeed : Deed b working progress access progress')
    (hfits : progress.Fits b.link loose) (hwindow : 0 < b.link.windowSize .mm2s)
    (hstopped : working = false → progress.isStopped = true → b.queue.running = false)
    (hwork : working = true → loose = false) (hloose : loose = true → Stranded b)
    (hunfinished : access.unfinished loose = true) : Stranded (Bench.answer access b).2 := by
  cases hdeed with
  | aside working progress haside => exact .aside hloose haside hunfinished
  | quit haside hmidway => exact .aside hloose haside hunfinished
  | read hserves =>
    rw [unfinished_of_serves hserves] at hunfinished
    have hport : (b.link.answer _).2.port .mm2s = b.link.port .mm2s :=
      b.link.port_of_serves hserves
    exact ⟨(hloose hunfinished).stopped,
      (Loopback.running_of_port hport).trans (hloose hunfinished).up⟩
  | send hserves =>
    rw [unfinished_of_serves hserves, hwork rfl] at hunfinished
    exact nomatch hunfinished
  | reset channel => exact .lower hloose (.inr rfl) hunfinished
  | mark hmarks => exact .mark hloose hunfinished
  | give => exact .mark hloose hunfinished
  | fall working hword hfalls => exact .lower hloose hword hunfinished
  | halt =>
    have hlower :
        (Access.link (.writeRegister Channel.mm2s.control Control.halt)).unfinished loose = true :=
      hunfinished
    exact .lower hloose (.inl rfl) hlower
  | prepare => exact .aside hloose rfl hunfinished
  | configure hsource => exact ⟨(hloose hunfinished).stopped, (hloose hunfinished).up⟩
  | launch hlaunches =>
    exact ⟨hstopped rfl rfl, (launch_spec hlaunches hfits hwindow).2.trans
      (unfinished_mono (fun hbefore => (hloose hbefore).up) hunfinished)⟩
  | revive => exact nomatch (Bool.and_false loose).symm.trans hunfinished
  | forget hforgets => exact .mark hloose hunfinished

/-- No deed moves the source window. -/
theorem base (hdeed : Deed b working progress access progress')
    (hfits : progress.Fits b.link loose) (hbase : b.queue.engine.source.base = sourceBase) :
    (Bench.answer access b).2.queue.engine.source.base = sourceBase := by
  by_cases hengine : ∃ engine, access = .setEngine engine
  · obtain ⟨engine, rfl⟩ := hengine
    cases hdeed with
    | configure hsource => exact (congrArg Split.base hsource).trans hfits
    | aside working progress haside => exact nomatch haside
    | quit haside hmidway => exact nomatch haside
  · rw [engine_answer fun engine hset => hengine ⟨engine, hset⟩]
    exact hbase

end Deed

theorem windowSize_bench (access : Access) (b : Bench Loopback) (channel : Channel) :
    (Bench.answer access b).2.link.windowSize channel = b.link.windowSize channel := by
  cases access with
  | link access => exact Loopback.windowSize_answer channel b.link access
  | take => rw [link_answer_of_isAside rfl]
  | _ => rfl

/-- Progress fits a device that has only subsided. -/
theorem Progress.Fits.mono {d d' : Loopback} {loose loose' : Bool} {progress : Progress}
    (hfits : progress.Fits d loose) (hsubsides : d.Subsides d')
    (haddress : progress.isSolo = true → (d'.port .mm2s).address = (d.port .mm2s).address)
    (hloose : loose' = true → loose = true) : progress.Fits d' loose' := by
  cases progress with
  | half => exact hsubsides .s2mm hfits
  | ready =>
    rw [Progress.Fits, Bool.eq_false_iff]
    exact fun hnow => nomatch (hloose hnow).symm.trans hfits
  | starting launch =>
    cases launch with
    | prepared source => exact hfits
    | aimed source => exact ⟨hfits.1, (haddress rfl).trans hfits.2⟩
    | launched source => exact ⟨hfits.1, (haddress rfl).trans hfits.2⟩
    | opened => trivial
  | _ => trivial

/-- A queue on a simulated device, and how far everyone who uses it has come. -/
structure Kept {κ : Type} (b : Bench Loopback) (everyone : κ → Progress) (loose : Bool) : Prop where
  settled : Settled b loose ∨ ∃ who, (everyone who).isMidway = true
  fits : ∀ who, (everyone who).Fits b.link loose
  stranded : loose = true → Stranded b
  base : b.queue.engine.source.base = sourceBase
  window : 0 < b.link.windowSize .mm2s

/-- Everyone keeps the channels as the queue has them, as long as nobody sends during a start. -/
theorem Kept.deed {κ : Type} [DecidableEq κ] {b : Bench Loopback} {everyone : κ → Progress}
    {working loose : Bool} {who : κ} {access : Access} {progress : Progress}
    (hkept : Kept b everyone loose) (hdeed : Deed b working (everyone who) access progress)
    (hstopped : working = false → (everyone who).isStopped = true → b.queue.running = false)
    (hsolo : (everyone who).isSolo = true → ∀ other, other ≠ who → everyone other = .even)
    (hwork : working = true → loose = false ∧ ∀ other, (everyone other).isSolo = false) :
    Kept (Bench.answer access b).2 (Function.update everyone who progress)
      (access.unfinished loose) where
  settled := by
    have hsettled (hbefore : Settled b loose ∨ (everyone who).isMidway = true) :=
      (hdeed.settled (hkept.fits who) hstopped hbefore).imp_right fun hmidway =>
        show ∃ other, (Function.update everyone who progress other).isMidway = true from
          ⟨who, by rwa [Function.update_self]⟩
    rcases hkept.settled with hbefore | ⟨other, hmidway⟩
    · exact hsettled (.inl hbefore)
    · by_cases hsame : other = who
      · exact hsettled (.inr (hsame ▸ hmidway))
      · exact .inr ⟨other, by rwa [Function.update_of_ne hsame]⟩
  fits := by
    refine (Function.forall_update_iff everyone fun _ progress =>
      progress.Fits (Bench.answer access b).2.link (access.unfinished loose)).2
        ⟨hdeed.fits (hkept.fits who) hkept.base hkept.window, fun other hother => ?_⟩
    cases halone : (everyone who).isSolo with
    | true =>
      rw [hsolo halone other hother]
      trivial
    | false =>
      have hmild : Mild b working access loose := hdeed.mild halone
      refine (hkept.fits other).mono hmild.subsides (fun hother => hmild.address ?_) hmild.loose
      rw [Bool.eq_false_iff]
      exact fun hworking => nomatch hother.symm.trans ((hwork hworking).2 other)
  stranded := hdeed.stranded (hkept.fits who) hkept.window hstopped
    (fun hworking => (hwork hworking).1) hkept.stranded
  base := hdeed.base (hkept.fits who) hkept.base
  window := by
    rw [windowSize_bench]
    exact hkept.window

end DmaLink.Queue
