import KernelFusion.Device.Source
import KernelFusion.Proofs.Areas
import KernelFusion.Proofs.LineText

/-!
What the code that clears the workspace writes.

The code is run line by line on one unit. A line is read by its form; one that is of no known form, or that
uses what was not set before, ends the run without a result, so that a run that ends well is one in which
every line was understood. What a copy moves and what a fill sets is a matter of the chip.

        share     uint32_t sizePerCore = 4096 / get_block_num();
        rounds    const uint32_t repeatTimes = sizePerCore / 512;
        start     … startAddr = … (workspace + sizePerCore * AscendC::GetBlockIdxImpl());
        zeros     AscendC::DuplicateImpl(…, (uint32_t)0, 128);
        copyOut   copy_ubuf_to_gm((__gm__ void*)(startAddr), …, 16, 1, 1);
        advance   startAddr += 512;
-/

namespace KernelFusion

open LineText

/-! ### Lines -/

/-- What a line does that clears. -/
inductive Action where
  /-- the bytes of a unit: these bytes by the number of blocks -/
  | share (bytes : Nat)
  /-- how often this many bytes fit into them -/
  | rounds (bytes : Nat)
  /-- makes the first byte of the unit the current one -/
  | start
  /-- zeroes the buffer of the units of a domain from its first byte on -/
  | zeros (d : Domain) (amount : Nat)
  /-- copies from the first byte of that buffer to the current byte and those behind it -/
  | copyOut (d : Domain) (units : Nat)
  /-- goes on by this many bytes -/
  | advance (bytes : Nat)
  /-- waits, or lets others go on -/
  | sync
  deriving DecidableEq

namespace Action

/-- Forms of lines with a number, and what each of them does. -/
def forms : List (List Char × (Nat → Action)) :=
  [("uint32_t sizePerCore = # / get_block_num();".toList, share),
   ("const uint32_t repeatTimes = sizePerCore / #;".toList, rounds),
   ("AscendC::DuplicateImpl((__ubuf__ uint32_t*)(0), (uint32_t)0, #);".toList, zeros .vector),
   ("create_cbuf_matrix((__cbuf__ uint32_t*)(0), #, 0);".toList, zeros .cube),
   ("copy_ubuf_to_gm((__gm__ void*)(startAddr), (__ubuf__ void*)(0), 0, 1, #, 1, 1);".toList,
     copyOut .vector),
   ("copy_cbuf_to_gm((__gm__ void*)(startAddr), (__cbuf__ void*)(0), 0, 1, #, 1, 1);".toList,
     copyOut .cube),
   ("startAddr += #;".toList, advance)]

/-- The form of the line that computes the first byte. -/
def startForm : List Char :=
  "__gm__ uint8_t* startAddr = (__gm__ uint8_t*)(workspace + # * AscendC::GetBlockIdxImpl());".toList

/-- Functions that only synchronize. -/
def syncCalls : List (List Char) :=
  ["AscendC::SetFlag".toList, "AscendC::WaitFlag".toList, "AscendC::PipeBarrier".toList,
   "ffts_cross_core_sync".toList, "wait_flag_dev".toList]

/-- Whether a line is one statement that calls such a function. -/
def isSync (line : List Char) : Bool :=
  match tokens line with
  | .word f :: ts => syncCalls.contains f && ts.idxOf (.mark [';']) + 1 == ts.length
  | _ => false

/-- The number in a line of a form. -/
def numberIn? (form line : List Char) : Option Nat :=
  match words? form line with
  | some [w] => number? w
  | _ => none

/-- Such a statement ends with its only semicolon. -/
theorem isSync_of_tokens {line : List Char} (f : List Char) (before : List Branching.Token)
    (hline : tokens line = .word f :: (before ++ [.mark [';']])) (hf : f ∈ syncCalls)
    (hbefore : .mark [';'] ∉ before) : isSync line = true := by
  rw [isSync, hline]
  simp [hf, List.idxOf_append_of_notMem hbefore]

def ofLine? (line : List Char) : Option Action :=
  if isSync line then some sync
  else if words? startForm line = some ["sizePerCore".toList] then some start
  else forms.findSome? fun form => (numberIn? form.1 line).map form.2

end Action

/-! ### Runs -/

/-- What copies and fills of a chip do. -/
structure Chip where
  /-- bytes in one of the units that copies count in -/
  copyUnit : Nat
  /-- bytes that a matrix of a configuration fills -/
  matrixBytes : Nat → Nat

namespace Chip

/-- A copy of 16 units is 512 bytes, and the matrix that is used fills as many. -/
structure CopiesSlices (chip : Chip) : Prop where
  copyUnit : chip.copyUnit = 32
  matrixBytes : 512 ≤ chip.matrixBytes 0x10010

/-- Bytes that are zeroed in a buffer: vector units count in words of four bytes. -/
def zeroed (chip : Chip) : Domain → Nat → Nat
  | .vector, n => 4 * n
  | .cube, n => chip.matrixBytes n

end Chip

/-- A unit that clears. -/
structure Worker where
  domain : Domain
  /-- the number of blocks in the launch -/
  blocks : Nat
  /-- the number of the unit in its domain -/
  index : Nat

/-- How far a unit is. -/
structure Sweep where
  share : Option Nat
  rounds : Option Nat
  address : Option Nat
  /-- the buffer that has zeros, and how many bytes of it -/
  zeros : Option (Domain × Nat)
  /-- the areas that were written, in order -/
  written : List Area

namespace Sweep

def start : Sweep := ⟨none, none, none, none, []⟩

/-- A line on a unit. A copy needs as many zeros in the buffer of the unit. -/
def act (chip : Chip) (u : Worker) (p : Sweep) : Action → Option Sweep
  | .share bytes => some { p with share := some (bytes / u.blocks) }
  | .rounds bytes => p.share.map fun share => { p with rounds := some (share / bytes) }
  | .start => p.share.map fun share => { p with address := some (share * u.index) }
  | .zeros d n => some { p with zeros := some (d, chip.zeroed d n) }
  | .copyOut d n => do
    let address ← p.address
    let (buffer, zeros) ← p.zeros
    if buffer = d ∧ d = u.domain ∧ n * chip.copyUnit ≤ zeros then
      some { p with written := p.written ++ [⟨address, n * chip.copyUnit⟩] }
    else none
  | .advance bytes => p.address.map fun address => { p with address := some (address + bytes) }
  | .sync => some p

def line (chip : Chip) (u : Worker) (p : Sweep) (text : String) : Option Sweep :=
  (Action.ofLine? text.toList).bind (p.act chip u)

/-- The same again, a number of times. -/
def repeated (step : Sweep → Option Sweep) : Nat → Sweep → Option Sweep
  | 0, p => some p
  | n + 1, p => (repeated step n p).bind step

end Sweep

/-- The domain that a condition asks for. -/
def guarded? (condition : String) : Option Domain :=
  if condition = "ASCEND_IS_AIC" then some .cube
  else if condition = "ASCEND_IS_AIV" then some .vector else none

/-- The head of a loop that is run as often as was computed. -/
def loopHead : String := "for (size_t i = 0; i < repeatTimes; i++)"

/-- Runs code on a unit. -/
def Code.clear (chip : Chip) (u : Worker) : Code → Sweep → Option Sweep
  | .done, p => some p
  | .line s rest, p => (p.line chip u s.render).bind (rest.clear chip u)
  | .blank rest, p => rest.clear chip u p
  | .block head body rest, p =>
    if head.text = loopHead then
      (p.rounds.bind fun n => Sweep.repeated (body.clear chip u) n p).bind (rest.clear chip u)
    else none
  | .choose c yes .none rest, p =>
    (guarded? c.text).bind fun d =>
      (if u.domain = d then yes.clear chip u p else some p).bind (rest.clear chip u)
  | .choose .., _ => none

/-- The areas that a unit writes, if its run ends well. -/
def Code.writes (chip : Chip) (u : Worker) (c : Code) : Option (List Area) :=
  (c.clear chip u .start).map Sweep.written

namespace Code

variable {chip : Chip} {u : Worker}

theorem clear_append (a b : Code) (p : Sweep) :
    (a ++ b).clear chip u p = (a.clear chip u p).bind (b.clear chip u) := by
  change (a.append b).clear chip u p = _
  cases a with
  | done => rfl
  | line s rest =>
    have ih := clear_append rest b
    simp only [append, clear, Option.bind_assoc]
    exact congrArg _ (funext ih)
  | blank rest => exact clear_append rest b p
  | block head body rest =>
    have ih := clear_append rest b
    simp only [append, clear]
    split
    · exact (congrArg _ (funext ih)).trans (Option.bind_assoc ..).symm
    · rfl
  | choose c yes more rest =>
    have ih := clear_append rest b
    cases more with
    | none =>
      simp only [append, clear, Option.bind_assoc]
      exact congrArg _ (funext fun d => congrArg _ (funext ih))
    | otherwise no => rfl
    | orWhen c' yes' more => rfl

/-- Lines whose actions are known. -/
theorem clear_texts {lines : List String} (actions : List Action)
    (h : lines.map (fun line => Action.ofLine? line.toList) = actions.map some) (p : Sweep) :
    (texts lines).clear chip u p = actions.foldlM (Sweep.act chip u) p := by
  induction lines generalizing actions p with
  | nil =>
    cases List.map_eq_nil_iff.mp h.symm
    rfl
  | cons line lines ih =>
    cases actions with
    | nil => cases h
    | cons action actions =>
      obtain ⟨hline, hlines⟩ := List.cons.inj h
      have hstep : p.line chip u line = p.act chip u action := congrArg (Option.bind · _) hline
      rw [List.foldlM_cons, ← hstep]
      exact congrArg _ (funext fun q => ih actions hlines q)

theorem clear_times {n : Nat} {p : Sweep} (h : p.rounds = some n) (body : Code) :
    (Code.block (.times "repeatTimes") body .done).clear chip u p
      = Sweep.repeated (body.clear chip u) n p := by
  have hhead : (Head.times "repeatTimes").text = loopHead := by
    change "for (size_t i = 0; i < " ++ "repeatTimes" ++ "; i++)" = "for (size_t i = 0; i < repeatTimes; i++)"
    simp only [String.reduceAppend]
  rw [clear, if_pos hhead, h, Option.bind_some]
  exact Option.bind_fun_some _

/-- Lines that only synchronize. -/
theorem clear_syncs {lines : List String} (h : ∀ line ∈ lines, Action.isSync line.toList = true)
    (p : Sweep) : (texts lines).clear chip u p = some p := by
  induction lines with
  | nil => rfl
  | cons line lines ih =>
    obtain ⟨hline, hlines⟩ := List.forall_mem_cons.mp h
    have hstep : p.line chip u line = some p := by
      rw [Sweep.line, Action.ofLine?, if_pos hline]
      rfl
    exact (congrArg (Option.bind · _) hstep).trans (ih hlines)

theorem clear_when {d : Domain} (yes : Code) (p : Sweep) : (when (.onDomain d) yes).clear chip u p
    = if u.domain = d then yes.clear chip u p else some p := by
  have hguard : guarded? (Cond.onDomain d).text = some d := by
    unfold guarded?
    cases d with
    | cube => exact if_pos rfl
    | vector => exact (if_neg (by decide)).trans (if_pos rfl)
  rw [when, clear, hguard, Option.bind_some]
  exact Option.bind_fun_some _

end Code

/-! ### The lines of a clearing -/

namespace Clearing

variable {c : Clearing} {chip : Chip} {u : Worker}

theorem ofLine?_share (bytes : Nat) :
    Action.ofLine? (s!"uint32_t sizePerCore = {bytes} / get_block_num();").toList
      = some (.share bytes) := by
  have hform : fits "uint32_t sizePerCore = # / get_block_num();".toList "uint32_t sizePerCore = ".toList
      [" / get_block_num();".toList] = true := by
    repeat rw [String.toList_ofList]
    decide
  have hwords : words? "uint32_t sizePerCore = # / get_block_num();".toList
      (s!"uint32_t sizePerCore = {bytes} / get_block_num();").toList = some [(toString bytes).toList] :=
    words?_joined "uint32_t sizePerCore = " [toString bytes] [" / get_block_num();"] hform rfl
      (isWord_numbers [bytes])
  have hline : s!"uint32_t sizePerCore = {bytes} / get_block_num();"
      = "uint32_t sizePerCore = " ++ (toString bytes ++ " / get_block_num();") := String.append_assoc ..
  rw [hline] at hwords ⊢
  have hsync : Action.isSync ("uint32_t sizePerCore = " ++ (toString bytes ++ " / get_block_num();")).toList
      = false := by
    have hfront : endsOutside "uint32_t sizePerCore = ".toList = true := by
      rw [String.toList_ofList]
      decide
    rw [String.toList_append, Action.isSync, tokens_behind hfront, Action.syncCalls]
    repeat rw [String.toList_ofList]
    rfl
  have hstart : words? Action.startForm
      ("uint32_t sizePerCore = " ++ (toString bytes ++ " / get_block_num();")).toList = none := by
    refine words?_of_front ?_ _
    unfold Action.startForm
    repeat rw [String.toList_ofList]
    decide
  generalize ("uint32_t sizePerCore = " ++ _).toList = line at hwords hsync hstart ⊢
  rw [Action.ofLine?, if_neg (by simp [hsync]), if_neg (by simp [hstart]), Action.forms,
    List.findSome?_cons, Action.numberIn?, hwords]
  simp only [number?_toString, Option.map_some]

/-- What is set in the buffer of the domain that clears. -/
def amount : Domain → Nat
  | .cube => 0x10010
  | .vector => 128

/-- What a unit does before its first copy. -/
theorem ofLine?_setup (c : Clearing) : c.setup.map (fun line => Action.ofLine? line.toList)
    = [some (.share c.bytes), some (.rounds 512), some .start,
       some (.zeros c.domain (amount c.domain)), some .sync, some .sync] := by
  rw [setup, List.cons_append, List.map_cons, ofLine?_share]
  refine congrArg _ ?_
  unfold Action.ofLine? Action.isSync Action.syncCalls Action.startForm Action.forms
  cases c.domain <;>
  · unfold zeroBuffer
    simp only [List.cons_append, List.nil_append, List.map_cons, List.map_nil, -String.reduceToList]
    repeat rw [String.toList_ofList]
    decide

theorem ofLine?_round (d : Domain) : (round d).map (fun line => Action.ofLine? line.toList)
    = [some (.copyOut d 16), some (.advance 512)] := by
  unfold Action.ofLine? Action.isSync Action.syncCalls Action.startForm Action.forms
  cases d <;>
  · unfold round
    simp only [List.map_cons, List.map_nil, -String.reduceToList]
    repeat rw [String.toList_ofList]
    decide

/-- Where a unit is before its first copy. -/
def ready (chip : Chip) (c : Clearing) (u : Worker) : Sweep where
  share := some (c.bytes / u.blocks)
  rounds := some (c.bytes / u.blocks / 512)
  address := some (c.bytes / u.blocks * u.index)
  zeros := some (c.domain, chip.zeroed c.domain (amount c.domain))
  written := []

theorem clear_setup : (Code.texts c.setup).clear chip u .start = some (c.ready chip u) := by
  refine (Code.clear_texts [.share c.bytes, .rounds 512, .start, .zeros c.domain (amount c.domain),
    .sync, .sync] c.ofLine?_setup _).trans ?_
  simp [Sweep.act, Sweep.start, ready]

theorem clear_round (hchip : chip.CopiesSlices) {p : Sweep} {address zeros : Nat}
    (haddress : p.address = some address) (hzeros : p.zeros = some (u.domain, zeros)) (h : 512 ≤ zeros) :
    (Code.texts (round u.domain)).clear chip u p
      = some { p with address := some (address + 512), written := p.written ++ [⟨address, 512⟩] } := by
  have hbytes : 16 * chip.copyUnit = 512 := by rw [hchip.copyUnit]
  refine (Code.clear_texts [.copyOut u.domain 16, .advance 512] (ofLine?_round _) _).trans ?_
  simp [Sweep.act, haddress, hzeros, hbytes, h]

/-- A unit zeroes one slice behind the other. -/
theorem clear_rounds (hchip : chip.CopiesSlices) {p : Sweep} {address zeros : Nat}
    (haddress : p.address = some address) (hzeros : p.zeros = some (u.domain, zeros)) (h : 512 ≤ zeros)
    (n : Nat) : Sweep.repeated ((Code.texts (round u.domain)).clear chip u) n p
      = some { p with
          address := some (address + n * 512), written := p.written ++ Area.row address 512 n } := by
  induction n with
  | zero => simp [Sweep.repeated, Area.row, ← haddress]
  | succ n ih =>
    have hround := clear_round hchip (p := { p with
      address := some (address + n * 512), written := p.written ++ Area.row address 512 n }) rfl hzeros h
    rw [Sweep.repeated, ih, Option.bind_some, hround, row_succ, Nat.succ_mul]
    simp [Nat.add_assoc]

theorem isWord_ofStream (d : Domain) : IsWord (Flag.ofStream d).text.toList := by
  cases d <;> exact isWord_literal (by decide)

theorem isSync_wait {flag : String} (hflag : IsWord flag.toList) :
    Action.isSync (Sync.waitText flag).toList = true := by
  have hopen : tokens "wait_flag_dev(".toList = [.word "wait_flag_dev".toList, .mark ['(']] := by
    repeat rw [String.toList_ofList]
    decide
  have hclose : tokens ");".toList = [.mark [')'], .mark [';']] := by
    rw [String.toList_ofList]
    decide
  have htokens := tokens_joined "wait_flag_dev(" [flag] [");"] (List.forall_mem_singleton.mpr hflag)
    (by rw [String.toList_ofList]; decide) (by decide)
  change Action.isSync (joined "wait_flag_dev(" [flag] [");"]).toList = true
  rw [hopen, joinedTokens, joinedTokens, hclose] at htokens
  · exact Action.isSync_of_tokens "wait_flag_dev".toList [.mark ['('], .word flag.toList, .mark [')']]
      htokens (by simp [Action.syncCalls]) (by simp)
  · simp

/-- Raising a flag is one call, whatever the message says besides. -/
theorem isSync_raise {pipe message flag : String} (hpipe : IsWord pipe.toList) (hflag : IsWord flag.toList)
    (hmessage : (outside message.toList && !(tokens message.toList).contains (.mark [';'])) = true) :
    Action.isSync ("ffts_cross_core_sync(" ++ pipe ++ message ++ flag ++ "));").toList = true := by
  obtain ⟨houtside, hfree⟩ := Bool.and_eq_true_iff.mp hmessage
  have hopen : tokens "ffts_cross_core_sync(".toList = [.word "ffts_cross_core_sync".toList, .mark ['(']] := by
    repeat rw [String.toList_ofList]
    decide
  have hclose : tokens "));".toList = [.mark [')'], .mark [')'], .mark [';']] := by
    rw [String.toList_ofList]
    decide
  have htexts : [message.toList, "));".toList].all outside = true := by
    rw [List.all_cons, houtside, String.toList_ofList]
    decide
  have htokens := tokens_joined "ffts_cross_core_sync(" [pipe, flag] [message, "));"]
    (List.forall_mem_cons.mpr ⟨hpipe, List.forall_mem_singleton.mpr hflag⟩)
    (by rw [String.toList_ofList]; decide) htexts
  change Action.isSync (joined "ffts_cross_core_sync(" [pipe, flag] [message, "));"]).toList = true
  rw [hopen, joinedTokens, joinedTokens, joinedTokens, hclose] at htokens
  · refine Action.isSync_of_tokens "ffts_cross_core_sync".toList (.mark ['('] :: .word pipe.toList
      :: (tokens message.toList ++ [.word flag.toList, .mark [')'], .mark [')']])) ?_
      (by simp [Action.syncCalls]) (by simpa using hfree)
    rw [htokens]
    simp
  · simp

/-- Behind the copies the units of the domain meet, and may let those of the other domain go on. -/
theorem isSync_finish (c : Clearing) : ∀ line ∈ "AscendC::PipeBarrier<PIPE_ALL>();"
    :: Sync.domainBarrier c.domain ++ (if c.releases then [Sync.raise .mte3 (.ofStream c.domain)] else []),
    Action.isSync line.toList = true := by
  have hpipe : Action.isSync "AscendC::PipeBarrier<PIPE_ALL>();".toList = true := by
    unfold Action.isSync Action.syncCalls
    repeat rw [String.toList_ofList]
    decide
  have hmeet (d : Domain) : ∀ line ∈ Sync.domainBarrier d, Action.isSync line.toList = true := by
    have hflag : IsWord (Sync.meetingFlag d).toList := by
      cases d <;> exact isWord_literal (by decide)
    have hpipe : IsWord (Pipe.draining d).text.toList := by
      cases d <;> exact isWord_literal (by decide)
    refine List.forall_mem_cons.mpr
      ⟨isSync_raise hpipe hflag ?_, List.forall_mem_singleton.mpr (isSync_wait hflag)⟩
    change (outside ", AscendC::GetffstMsg(0x0, ".toList && _) = true
    repeat rw [String.toList_ofList]
    decide
  have hraise (d : Domain) : Action.isSync (Sync.raise .mte3 (.ofStream d)).toList = true := by
    refine isSync_raise (isWord_literal (by decide)) (isWord_ofStream d) ?_
    change (outside ", AscendC::GetffstMsg(0x02, ".toList && _) = true
    repeat rw [String.toList_ofList]
    decide
  intro line hline
  rcases List.mem_append.mp hline with hline | hline
  · rcases List.mem_cons.mp hline with rfl | hline
    · exact hpipe
    · exact hmeet _ line hline
  · cases hreleases : c.releases with
    | false => simp [hreleases] at hline
    | true =>
      rw [hreleases, if_pos rfl, List.mem_singleton] at hline
      rw [hline]
      exact hraise _

/-- The units of the other domain may have to wait, and write nothing. -/
theorem clear_await (c : Clearing) (p : Sweep) : (if c.releases then
      .empty ++ .when (.onDomain c.domain.other) (.text (Sync.await (.ofStream c.domain)))
    else .done : Code).clear chip u p = some p := by
  have hawait : (Code.text (Sync.await (.ofStream c.domain))).clear chip u p = some p := by
    have hsync : ∀ line ∈ [Sync.await (.ofStream c.domain)], Action.isSync line.toList = true :=
      List.forall_mem_singleton.mpr (isSync_wait (isWord_ofStream c.domain))
    exact Code.clear_syncs hsync p
  split
  · rw [Code.clear_append, Code.empty, Code.clear, Code.clear, Option.bind_some, Code.clear_when, hawait]
    split <;> rfl
  · rfl

/-- A unit of the domain that clears writes its share, slice by slice. -/
theorem clear_body (hchip : chip.CopiesSlices) (hu : u.domain = c.domain) :
    ∃ p, c.body.clear chip u .start = some p ∧
      p.written = Area.row (c.bytes / u.blocks * u.index) 512 (c.bytes / u.blocks / 512) := by
  have henough : 512 ≤ chip.zeroed c.domain (amount c.domain) := by
    cases c.domain with
    | cube => exact hchip.matrixBytes
    | vector => exact Nat.le_refl 512
  have hzeros : (c.ready chip u).zeros = some (u.domain, chip.zeroed c.domain (amount c.domain)) := by
    rw [hu]
    rfl
  have hrounds := clear_rounds hchip (p := c.ready chip u) rfl hzeros henough (c.bytes / u.blocks / 512)
  have hrun : c.body.clear chip u .start = Sweep.repeated ((Code.texts (round u.domain)).clear chip u)
      (c.bytes / u.blocks / 512) (c.ready chip u) := by
    rw [body, Code.clear_append, Code.clear_append, clear_setup, Option.bind_some, Code.clear_times rfl,
      ← hu, hrounds, Option.bind_some, hu, Code.clear_syncs c.isSync_finish]
  exact ⟨_, hrun.trans hrounds, rfl⟩

theorem writes_own (hchip : chip.CopiesSlices) (hu : u.domain = c.domain) : c.code.writes chip u
    = some (Area.row (c.bytes / u.blocks * u.index) 512 (c.bytes / u.blocks / 512)) := by
  obtain ⟨p, hbody, hwritten⟩ := clear_body hchip hu
  rw [Code.writes, code, Code.clear_append, Code.clear_when, if_pos hu, hbody, Option.bind_some, clear_await,
    Option.map_some, hwritten]

theorem writes_other (hu : u.domain ≠ c.domain) : c.code.writes chip u = some [] := by
  rw [Code.writes, code, Code.clear_append, Code.clear_when, if_neg hu, Option.bind_some, clear_await]
  rfl

end Clearing

end KernelFusion
