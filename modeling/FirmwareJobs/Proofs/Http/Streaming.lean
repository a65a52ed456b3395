import FirmwareJobs.Http.Serving
import FirmwareJobs.Proofs.Engine.RecordFile
import FirmwareJobs.Proofs.Http.Parsing
import FirmwareJobs.Proofs.Json.Lawful
import FirmwareJobs.Proofs.Observe.Agreement

/-! # What the stream of a job carries

A client reads one event for each line, in order, and then the final record. The data of an event
follow the colon of their field at once, and the reader takes one space there for a separator. So a
line that begins with a space arrives without it, and all other lines arrive as they are.
-/

namespace FirmwareJobs.Http

open Text

/-- The event of a line. -/
def lineNotice (line : String) : Notice := ⟨"log".toList, line.toList⟩

/-- The events are those of the lines, and a last one from which the record can be read. -/
def Carries (notices : List Notice) (lines : List String) (r : Record) : Prop :=
  ∃ data, notices = lines.map lineNotice ++ [⟨"done".toList, data⟩] ∧
    Record.format.decode (Utf8.encode data) = .ok r

/-- A line as it arrives. -/
def trimmed (line : String) : String := String.ofList (Pending.withoutSpace line.toList)

theorem toList_trimmed (line : String) :
    (trimmed line).toList = Pending.withoutSpace line.toList := String.toList_ofList

theorem withoutSpace_eq_iff (s : List Char) :
    Pending.withoutSpace s = s ↔ s.head? ≠ some ' ' := by
  unfold Pending.withoutSpace
  split
  · next r =>
    refine iff_of_false (fun h => ?_) (by simp)
    have hlength := congrArg List.length h
    simp at hlength
  · next hspace =>
    refine iff_of_true rfl fun h => ?_
    cases s with
    | nil => contradiction
    | cons c r => exact hspace r (by rw [Option.some.inj h])

theorem trimmed_eq_iff (line : String) : trimmed line = line ↔ line.toList.head? ≠ some ' ' := by
  rw [← withoutSpace_eq_iff, ← toList_trimmed, String.toList_inj]

theorem blockLines_append (blocks more : List Block) :
    blockLines (blocks ++ more) = blockLines blocks ++ blockLines more := List.flatMap_append

theorem blockLines_cons (b : Block) (blocks : List Block) :
    blockLines (b :: blocks) = (b.fields ++ [[]]) ++ blockLines blocks := List.flatMap_cons

/-! ## The blocks of a stream -/

theorem oneLine_padding : OneLine (List.replicate paddingLength ' ') := fun c hc => by
  rw [List.eq_of_mem_replicate hc]
  decide

theorem fields_padding : padding.fields = [':' :: List.replicate paddingLength ' '] := by
  rw [padding, Block.fields, lines_of_oneLine oneLine_padding]
  rfl

theorem readLines_padding (rest : List (List Char)) :
    Pending.empty.readLines ((padding.fields ++ [[]]) ++ rest) = Pending.empty.readLines rest := by
  rw [fields_padding]
  rfl

theorem readLines_logBlock {line : String} (h : OneLine line.toList) (rest : List (List Char)) :
    Pending.empty.readLines (((logBlock line).fields ++ [[]]) ++ rest) =
      lineNotice (trimmed line) :: Pending.empty.readLines rest := by
  rw [logBlock, Pending.readLines_event (by decide) h, lineNotice, toList_trimmed]
  rfl

theorem readLines_logBlocks {lines : List String} (h : ∀ line ∈ lines, OneLine line.toList)
    (rest : List (List Char)) :
    Pending.empty.readLines (blockLines (lines.map logBlock) ++ rest) =
      (lines.map trimmed).map lineNotice ++ Pending.empty.readLines rest := by
  induction lines with
  | nil => rfl
  | cons line lines ih =>
    obtain ⟨hline, hlines⟩ := List.forall_mem_cons.mp h
    rw [List.map_cons, blockLines_cons, List.append_assoc, readLines_logBlock hline, ih hlines]
    rfl

theorem oneLine_record (r : Record) : OneLine (Record.format.encode r).toList := by
  rw [Json.Format.encode, String.toList_ofList]
  exact Record.oneLine_format r

theorem readLines_doneBlock (r : Record) (rest : List (List Char)) :
    Pending.empty.readLines (((doneBlock r).fields ++ [[]]) ++ rest) =
      ⟨"done".toList, (Record.format.encode r).toList⟩ :: Pending.empty.readLines rest := by
  have hbrace : (Record.format.encode r).toList.head? = some '\x7b' := by
    rw [Json.Format.encode, String.toList_ofList]
    rfl
  have hname : Pending.withoutSpace "done".toList = "done".toList := rfl
  have hdata : Pending.withoutSpace (Record.format.encode r).toList =
      (Record.format.encode r).toList :=
    (withoutSpace_eq_iff _).mpr (by rw [hbrace]; decide)
  rw [doneBlock, Pending.readLines_event (by decide) (oneLine_record r), hname, hdata]

theorem oneLine_event {name data : List Char} (hname : OneLine name) (hdata : OneLine data) :
    ∀ line ∈ (Block.event name data).fields ++ [[]], OneLine line := by
  have hfield {field value : List Char} (hf : OneLine field) (hv : OneLine value) :
      OneLine (Block.fieldLine field value) :=
    oneLine_append.mpr ⟨hf, oneLine_cons.mpr ⟨by decide, hv⟩⟩
  rw [Block.fields, lines_of_oneLine hdata]
  refine List.forall_mem_cons.mpr ⟨hfield (by decide) hname, ?_⟩
  refine List.forall_mem_cons.mpr ⟨hfield (by decide) hdata, ?_⟩
  exact List.forall_mem_cons.mpr ⟨oneLine_nil, List.forall_mem_nil _⟩

theorem streamBlocks_eq (history : List String) (first : Nat) (lines : List String) (r : Record)
    (more : List Event) :
    streamBlocks history (Job.lineEvents first lines ++ .done r :: more) =
      padding :: ((history ++ lines).map logBlock ++ [doneBlock r]) := by
  have hlater : (upToDone (Job.lineEvents first lines ++ .done r :: more)).map eventBlock =
      lines.map logBlock ++ [doneBlock r] := by
    induction lines generalizing first with
    | nil => rfl
    | cons line lines ih => exact congrArg (logBlock line :: ·) (ih (first + 1))
  rw [streamBlocks, hlater, List.map_append, List.append_assoc]
  rfl

theorem oneLine_streamBlocks {lines : List String} (h : ∀ line ∈ lines, OneLine line.toList)
    (r : Record) :
    ∀ line ∈ blockLines (padding :: (lines.map logBlock ++ [doneBlock r])), OneLine line := by
  intro line hline
  obtain ⟨b, hb, hmem⟩ := List.mem_flatMap.mp hline
  rcases List.mem_cons.mp hb with rfl | hb
  · rw [fields_padding] at hmem
    rcases List.mem_pair.mp hmem with rfl | rfl
    · exact oneLine_cons.mpr ⟨by decide, oneLine_padding⟩
    · exact oneLine_nil
  · rcases List.mem_append.mp hb with hb | hb
    · obtain ⟨text, htext, rfl⟩ := List.mem_map.mp hb
      exact oneLine_event (by decide) (h text htext) line hmem
    · rw [List.mem_singleton.mp hb] at hmem
      exact oneLine_event (by decide) (oneLine_record r) line hmem

theorem readStream_streamBlocks {history lines : List String} {first : Nat} {r : Record}
    {more : List Event} {body : String}
    (hbody : IsBody (streamBlocks history (Job.lineEvents first lines ++ .done r :: more)) body)
    (h : ∀ line ∈ history ++ lines, OneLine line.toList) :
    readStream body = ((history ++ lines).map trimmed).map lineNotice ++
      [⟨"done".toList, (Record.format.encode r).toList⟩] := by
  rw [streamBlocks_eq] at hbody
  have hdone : blockLines [doneBlock r] = ((doneBlock r).fields ++ [[]]) ++ [] :=
    blockLines_cons _ _
  rw [readStream_of_isBody hbody (oneLine_streamBlocks h r), blockLines_cons, readLines_padding,
    blockLines_append, readLines_logBlocks h, hdone, readLines_doneBlock]
  rfl

/-! ## What a client gets -/

theorem lineNotice_injective : Function.Injective lineNotice := fun _ _ h =>
  String.toList_inj.mp (congrArg Notice.data h)

theorem Carries.lines_eq {notices : List Notice} {lines more : List String} {r s : Record}
    (h : Carries notices lines r) (h' : Carries notices more s) : lines = more := by
  obtain ⟨data, hdata, -⟩ := h
  obtain ⟨data', hdata', -⟩ := h'
  rw [hdata] at hdata'
  exact List.map_injective_iff.mpr lineNotice_injective (List.append_inj' hdata' rfl).1

theorem map_trimmed_eq_iff (lines : List String) :
    lines.map trimmed = lines ↔ ∀ line ∈ lines, line.toList.head? ≠ some ' ' := by
  have hall := List.map_inj_left (l := lines) (f := trimmed) (g := id)
  rw [List.map_id] at hall
  rw [hall]
  exact forall₂_congr fun line _ => trimmed_eq_iff line

/-- A stream carries its lines without the space that they may begin with. -/
theorem carries_of_isBody {history lines : List String} {first : Nat} {r : Record}
    {more : List Event} {body : String}
    (hbody : IsBody (streamBlocks history (Job.lineEvents first lines ++ .done r :: more)) body)
    (h : ∀ line ∈ history ++ lines, OneLine line.toList) :
    Carries (readStream body) ((history ++ lines).map trimmed) r ∧
      (Carries (readStream body) (history ++ lines) r ↔
        ∀ line ∈ history ++ lines, line.toList.head? ≠ some ' ') := by
  have hcarries : Carries (readStream body) ((history ++ lines).map trimmed) r :=
    ⟨_, readStream_streamBlocks hbody h, (Record.faithful_format r).decode_encode⟩
  refine ⟨hcarries, ?_⟩
  rw [← map_trimmed_eq_iff]
  refine ⟨fun hall => hcarries.lines_eq hall, fun hall => ?_⟩
  rwa [hall] at hcarries

/-! ## The streams of jobs -/

/-- The events of a stream after the history. Without a listener it is the final record. -/
def shown (a : Observe.Attachment) (events : List Event) : List Event :=
  match a.listener with
  | none => [.done a.record]
  | some _ => events

/-- What the stream route sends. -/
theorem stream?_eq (s : Service) (position : Nat) :
    s.stream? position = (s.attach? position).map fun (a, s) =>
      match a.listener with
      | none => (streamBlocks a.history (shown a []), s)
      | some listener =>
        let (events, s) := s.collect position listener Toolchain.turns
        (streamBlocks a.history (shown a events), s) := by
  unfold Service.stream?
  cases s.attach? position with
  | none => rfl
  | some found =>
    obtain ⟨⟨history, record, listener⟩, next⟩ := found
    cases listener <;> rfl

open Job Observe in
theorem shown_eq {record : Record} {capacity : Nat} {before after : List Operation}
    {file : Option (List UInt8)} {a : Attachment} {next : Job}
    (hattach : attach ((ofRecord record capacity).run before) file = (a, next))
    (hops : Settled next after)
    (hkeeps : ∀ listener, a.listener = some listener →
      KeepsUp next listener after ∧ (next.run after).doneSent = true) :
    (next.run after).isTerminal = true ∧ ∃ first,
      shown a (a.events next after) =
        lineEvents first (published after) ++ [.done (next.run after).record] := by
  have hj := orderly_run before (orderly_ofRecord record capacity)
  -- An observer that comes after the end has no listener, and nothing is published any more.
  cases hend : ((ofRecord record capacity).run before).isTerminal with
  | true =>
    rw [attach_ended file hend] at hattach
    obtain ⟨rfl, rfl⟩ := Prod.mk.inj hattach
    have hall : Settled ((ofRecord record capacity).run before) ([] ++ after) := hops
    obtain ⟨hnone, hrecord⟩ := hall.after_end hend
    rw [List.nil_append] at hrecord
    refine ⟨isTerminal_run after hend, 0, ?_⟩
    rw [hnone, hrecord]
    rfl
  | false =>
    rw [attach_live file hend] at hattach
    obtain ⟨rfl, rfl⟩ := Prod.mk.inj hattach
    obtain ⟨hkeeps, hsent⟩ := hkeeps _ rfl
    have hregistered := registered_listen hj hend
    exact ⟨(orderly_run after hregistered.orderly).last hsent, _,
      delivered_of_keepsUp hregistered hkeeps hops hsent⟩

open Job Observe in
/-- The body of a stream gives the lines of the job in order, each without the space that it may
begin with, and then the record with which the job ended. -/
theorem stream_carries_iff {record : Record} {capacity : Nat} {before after : List Operation}
    {file : Option (List UInt8)} {a : Attachment} {next : Job} {body : String}
    (hattach : attach ((ofRecord record capacity).run before) file = (a, next))
    (hops : Settled next after)
    (hkeeps : ∀ listener, a.listener = some listener →
      KeepsUp next listener after ∧ (next.run after).doneSent = true)
    (hclean : ∀ line ∈ a.history ++ published after, OneLine line.toList)
    (hbody : IsBody (streamBlocks a.history (shown a (a.events next after))) body) :
    (next.run after).isTerminal = true ∧
      Carries (readStream body) ((a.history ++ published after).map trimmed)
        (next.run after).record ∧
      (Carries (readStream body) (a.history ++ published after) (next.run after).record ↔
        ∀ line ∈ a.history ++ published after, line.toList.head? ≠ some ' ') := by
  obtain ⟨hend, first, hshown⟩ := shown_eq hattach hops hkeeps
  rw [hshown] at hbody
  exact ⟨hend, carries_of_isBody hbody hclean⟩

section

open Job Observe

/-- What happens to a build after an observer has come. -/
def streamedRest : List Operation :=
  [.publish "" .output, .publish ": y" .output, .finish 0 noon, .notifyDone]

theorem stream_carries_lamp :
    let found := attach ((ofRecord specimen 5).run [.start noon, .publish "data: x" .output]) none
    found.1.history ++ published streamedRest = ["data: x", "", ": y"] ∧
      Carries (readStream (renderStream (streamBlocks found.1.history
          (shown found.1 (found.1.events found.2 streamedRest)))))
        (found.1.history ++ published streamedRest) (found.2.run streamedRest).record := by
  intro found
  have hops : Settled found.2 streamedRest := by decide
  have hkeeps : KeepsUp found.2 0 streamedRest := by decide
  have hclean : ∀ line ∈ found.1.history ++ published streamedRest, OneLine line.toList := by
    decide
  have hattach : attach ((ofRecord specimen 5).run [.start noon, .publish "data: x" .output]) none =
      (found.1, found.2) := rfl
  refine ⟨rfl, (stream_carries_iff hattach hops (fun listener hlistener => ?_) hclean
    (isBody_renderStream _)).2.2.mpr (by decide)⟩
  obtain rfl := Option.some.inj hlistener
  exact ⟨hkeeps, rfl⟩

/-- A line that begins with a space does not arrive as it is. -/
theorem stream_loses_space :
    let found := attach ((ofRecord specimen 5).run [.publish " two" .output, .cancel noon]) none
    found.1.history = [" two"] ∧ OneLine " two".toList ∧
      ¬ Carries (readStream (renderStream (streamBlocks found.1.history
          (shown found.1 (found.1.events found.2 [])))))
        found.1.history found.1.record := by
  intro found
  refine ⟨rfl, by decide, fun h => ?_⟩
  have hbody : IsBody (streamBlocks [" two"] (lineEvents 0 [] ++ [.done found.1.record])) _ :=
    isBody_renderStream _
  exact (carries_of_isBody hbody (by decide)).2.mp h " two" (by decide) rfl

end

end FirmwareJobs.Http
