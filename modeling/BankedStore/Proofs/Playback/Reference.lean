import Mathlib.Algebra.BigOperators.Group.Finset.Basic
import BankedStore.Workload
import BankedStore.Proofs.Bus.Encoding
import BankedStore.Proofs.Playback.Checker
import BankedStore.Proofs.Playback.Totals

/-!
# The reference script plays clean

The reference script writes words of a generated pattern and then reads them back.
However often a word comes back in the pattern, each of its reads expects the data of
the last write to it.  A memory whose words have 64 bits or more keeps all of this data,
so it plays the script to its end.
-/

namespace BankedStore

/-! ## Writing, then reading back -/

theorem latestWrite_of_reads {map : AddressMap} {reads : List Command}
    (h : ∀ c ∈ reads, c.request.isWrite = false) (word : Nat) :
    latestWrite map reads word = none := by
  refine List.findSome?_eq_none_iff.mpr fun c hc => ?_
  have hread := h c (List.mem_reverse.mp hc)
  cases hrequest : c.request with
  | write addr data =>
      rw [hrequest] at hread
      contradiction
  | read addr expected => rfl

structure Command.ReadsBack (map : AddressMap) (earlier : List Command) (c : Command) : Prop where
  read : c.request.isWrite = false
  inRange : map.word c.request.addr < map.words
  expected : latestWrite map earlier (map.word c.request.addr) = some c.request.data

namespace Memory

variable {t : ElementType} {m : Memory t} {map : AddressMap} {c : Command}

theorem offence_of_write (earlier : List Command) (hwrite : c.request.isWrite = true)
    (hword : map.word c.request.addr < map.words) : m.offence map earlier c = none := by
  rw [offence, if_pos hword]
  cases hrequest : c.request with
  | write addr data => rfl
  | read addr expected =>
      rw [hrequest] at hwrite
      contradiction

theorem offence_of_readsBack {earlier : List Command} (hwidth : 64 ≤ t.width)
    (h : c.ReadsBack map earlier) : m.offence map earlier c = none := by
  obtain ⟨hread, hword, hexpected⟩ := h
  rw [offence, if_pos hword]
  cases hrequest : c.request with
  | write addr data => rfl
  | read addr expected =>
      rw [hrequest] at hexpected
      have hkept : expected.toNat < 2 ^ t.width :=
        Nat.lt_of_lt_of_le expected.toNat_lt (Nat.pow_le_pow_right (by decide) hwidth)
      have hfound : m.found map earlier addr = expected := by
        unfold found
        rw [Request.addr] at hexpected
        rw [hexpected]
        dsimp only [Request.data]
        rw [Nat.mod_eq_of_lt hkept, UInt64.ofNat_toNat]
      exact if_pos hfound

theorem clean_of_readsBack {writes reads : List Command} (hwidth : 64 ≤ t.width)
    (hwrites : ∀ c ∈ writes, c.request.isWrite = true ∧ map.word c.request.addr < map.words)
    (hreads : ∀ c ∈ reads, c.ReadsBack map writes) : m.Clean map (writes ++ reads) := by
  intro earlier c later hsplit
  rcases List.append_eq_append_iff.mp hsplit with ⟨before, rfl, hrest⟩ | ⟨after, rfl, hrest⟩
  · -- The reads before a read leave open what was written last.
    rw [hrest] at hreads
    obtain ⟨hread, hword, hexpected⟩ := hreads c (by simp)
    have hbefore : latestWrite map before (map.word c.request.addr) = none :=
      latestWrite_of_reads (fun c' hc' => (hreads c' (by simp [hc'])).read) _
    refine offence_of_readsBack hwidth ⟨hread, hword, ?_⟩
    rw [latestWrite_append, hbefore, Option.none_or, hexpected]
  · cases after with
    | nil =>
        cases hrest
        rw [List.append_nil] at hreads
        exact offence_of_readsBack hwidth (hreads c (by simp))
    | cons first after =>
        cases hrest
        obtain ⟨hwrite, hword⟩ := hwrites c (by simp)
        exact offence_of_write earlier hwrite hword

end Memory

theorem Player.play_of_clean {t : ElementType} {m : Memory t} {map : AddressMap}
    {p : Player} (hm : m.Sound) (hmap : map.Within m.geometry) (h : m.Clean map p.commands) :
    (p.play (⟨m, map, 0⟩ : MemoryBus t)).1 = .ok (.total p.warmup p.commands) := by
  rcases play_ends hm hmap p with ⟨report, hok, -⟩ | ⟨earlier, c, later, e, hsplit, hoffence, -⟩
  · rw [hok, report_of_play hok]
  · rw [h earlier c later hsplit] at hoffence
    contradiction

/-! ## The commands of the script -/

namespace Workload

variable {map : AddressMap} {words : List Nat}

theorem length_stream (state : UInt64) (n : Nat) : (stream state n).length = n := by
  induction n generalizing state with
  | zero => rfl
  | succ n ih => rw [stream, List.length_cons, ih]

theorem exists_accessPattern_eq_ok {count : Nat} (hcount : 0 < count) (length : Nat)
    (seed : UInt64) :
    ∃ words, accessPattern count length seed = .ok words ∧ words.length = length ∧
      ∀ word ∈ words, word < count := by
  refine ⟨_, if_neg (by omega), by rw [List.length_map, length_stream], ?_⟩
  intro word hword
  obtain ⟨x, -, rfl⟩ := List.mem_map.mp hword
  exact Nat.mod_lt _ hcount

structure Addressed (map : AddressMap) : Prop where
  numbered : map.Numbered
  fits : map.words * 2 ^ map.offsetBits ≤ Size.limit

def startOf (map : AddressMap) (word : Nat) : UInt64 :=
  (word * map.wordStride.toNat).toUInt64

def writeCommands (map : AddressMap) (writes : List (Nat × UInt64)) : List Command :=
  writes.map fun (word, data) => ⟨0, .write (startOf map word) data, 0⟩

def readCommands (map : AddressMap) (words : List Nat) : List Command :=
  words.zipIdx.map fun (word, i) =>
    ⟨(i % 4).toUInt64, .read (startOf map word) (lastWritten (writesTo words) word), 0⟩

namespace Addressed

theorem start_lt (h : Addressed map) {word : Nat} (hword : word < map.words) :
    word * map.wordStride.toNat < Size.limit := by
  rw [h.numbered.toNat_wordStride]
  exact Nat.lt_of_lt_of_le (Nat.mul_lt_mul_of_pos_right hword (Nat.two_pow_pos _)) h.fits

theorem wordAddress_eq_ok (h : Addressed map) {word : Nat} (hword : word < map.words) :
    wordAddress map word = .ok (startOf map word) := by
  rw [wordAddress, Size.mul_eq_ok (h.start_lt hword)]
  rfl

theorem word_startOf (h : Addressed map) {word : Nat} (hword : word < map.words) :
    map.word (startOf map word) = word := by
  have haddr : (startOf map word).toNat = word * 2 ^ map.offsetBits := by
    rw [← h.numbered.toNat_wordStride]
    exact Nat.mod_eq_of_lt (h.start_lt hword)
  rw [AddressMap.word, haddr, Nat.mul_div_cancel _ (Nat.two_pow_pos _)]

theorem latestWrite_writeCommands (h : Addressed map) {writes : List (Nat × UInt64)}
    (hwrites : ∀ w ∈ writes, w.1 < map.words) (word : Nat) :
    latestWrite map (writeCommands map writes) word = writes.reverse.lookup word := by
  induction writes using List.reverseRecOn with
  | nil => rfl
  | append_singleton writes w ih =>
      obtain ⟨written, data⟩ := w
      have hearlier := ih fun w hw => hwrites w (List.mem_append_left _ hw)
      have hwritten := h.word_startOf (hwrites (written, data) (by simp))
      have hsplit : writeCommands map (writes ++ [(written, data)]) =
          writeCommands map writes ++ [⟨0, .write (startOf map written) data, 0⟩] :=
        List.map_append
      rw [hsplit, latestWrite_append_singleton, List.reverse_append, List.reverse_singleton,
        List.singleton_append, List.lookup_cons, ← hearlier]
      dsimp only
      rw [hwritten]
      by_cases hsame : written = word
      · simp [hsame]
      · rw [if_neg hsame, beq_false_of_ne (Ne.symm hsame)]

end Addressed

theorem map_fst_writesTo (words : List Nat) : (writesTo words).map Prod.fst = words := by
  rw [writesTo, List.map_map]
  exact List.zipIdx_map_fst 0 words

theorem fst_mem_of_mem_writesTo {w : Nat × UInt64} (hw : w ∈ writesTo words) : w.1 ∈ words := by
  rw [← map_fst_writesTo words]
  exact List.mem_map_of_mem hw

theorem lookup_eq_lastWritten {word : Nat} (hword : word ∈ words) :
    (writesTo words).reverse.lookup word = some (lastWritten (writesTo words) word) := by
  rw [← map_fst_writesTo words] at hword
  obtain ⟨w, hw, hsame⟩ := List.mem_map.mp hword
  have hsome : ((writesTo words).reverse.lookup word).isSome :=
    List.lookup_isSome_iff.mpr ⟨w, List.mem_reverse.mpr hw, by simp [hsame]⟩
  obtain ⟨data, hdata⟩ := Option.isSome_iff_exists.mp hsome
  rw [lastWritten, hdata]
  rfl

theorem exists_referenceScript_eq_ok (h : Addressed map) (hpos : 0 < map.words) {length : Nat}
    (hlength : 2 * length < Size.limit) (seed : UInt64) :
    ∃ words, words.length = length ∧ (∀ word ∈ words, word < map.words) ∧
      referenceScript map length seed =
        .ok (writeCommands map (writesTo words) ++ readCommands map words) := by
  obtain ⟨words, hpattern, hcount, hwords⟩ := exists_accessPattern_eq_ok hpos length seed
  refine ⟨words, hcount, hwords, ?_⟩
  have hcapacity : map.capacity = .ok map.words := Size.mul_eq_ok h.numbered.words_lt
  have hwrites : (writesTo words).mapM (writeCommand map) =
      .ok (writeCommands map (writesTo words)) := by
    refine mapM_eq_ok fun w hw => ?_
    rw [writeCommand, h.wordAddress_eq_ok (hwords _ (fst_mem_of_mem_writesTo hw))]
    rfl
  have hreads : words.zipIdx.mapM (readCommand map (writesTo words)) =
      .ok (readCommands map words) := by
    refine mapM_eq_ok fun r hr => ?_
    rw [readCommand, h.wordAddress_eq_ok (hwords _ (List.fst_mem_of_mem_zipIdx hr))]
    rfl
  simp only [referenceScript, hcapacity, hpattern, Size.mul_eq_ok hlength, hwrites, hreads, bind,
    Except.bind, pure, Except.pure]

theorem clean_referenceScript {t : ElementType} (m : Memory t) (hwidth : 64 ≤ t.width)
    (h : Addressed map) (hwords : ∀ word ∈ words, word < map.words) :
    m.Clean map (writeCommands map (writesTo words) ++ readCommands map words) := by
  have hwrites : ∀ w ∈ writesTo words, w.1 < map.words :=
    fun w hw => hwords w.1 (fst_mem_of_mem_writesTo hw)
  refine Memory.clean_of_readsBack hwidth ?_ ?_
  · intro c hc
    obtain ⟨w, hw, rfl⟩ := List.mem_map.mp hc
    exact ⟨rfl, (h.word_startOf (hwrites w hw)).trans_lt (hwrites w hw)⟩
  · intro c hc
    obtain ⟨⟨word, i⟩, hmem, rfl⟩ := List.mem_map.mp hc
    have hword : word ∈ words := List.fst_mem_of_mem_zipIdx hmem
    have hsame := h.word_startOf (hwords word hword)
    refine ⟨rfl, hsame.trans_lt (hwords word hword), ?_⟩
    change latestWrite map _ (map.word (startOf map word)) = _
    rw [hsame, h.latestWrite_writeCommands hwrites, lookup_eq_lastWritten hword]
    rfl

/-! ## What is counted -/

theorem delays_readCommands (map : AddressMap) (words : List Nat) :
    delays (readCommands map words) = ∑ i ∈ Finset.range words.length, i % 4 := by
  have hdelay : ∀ i : Nat, (i % 4).toUInt64.toNat = i % 4 := fun i => Nat.mod_eq_of_lt (by omega)
  calc
    delays (readCommands map words) = (words.zipIdx.map fun r => r.2 % 4).sum := by
      simp only [delays, readCommands, List.map_map, Function.comp_def, hdelay]
    _ = ((words.zipIdx.map Prod.snd).map (· % 4)).sum := by
      rw [List.map_map]
      rfl
    _ = ∑ i ∈ Finset.range words.length, i % 4 := by
      rw [List.zipIdx_map_snd, ← List.range_eq_range']
      rfl

theorem total_referenceScript (map : AddressMap) (words : List Nat) (warmup : UInt64) :
    Report.total warmup (writeCommands map (writesTo words) ++ readCommands map words) =
      ⟨words.length, words.length, (min (warmup.toNat + ∑ i ∈ Finset.range words.length, i % 4)
        (Size.limit - 1)).toUInt64⟩ := by
  have hwrite : ∀ c ∈ writeCommands map (writesTo words), c.request.isWrite = true :=
    List.forall_mem_map.mpr fun _ _ => rfl
  have hread : ∀ c ∈ readCommands map words, c.request.isWrite = false :=
    List.forall_mem_map.mpr fun _ _ => rfl
  have hwrites : (writeCommands map (writesTo words)).length = words.length := by
    rw [writeCommands, List.length_map, ← List.length_map Prod.fst, map_fst_writesTo]
  have hreads : (readCommands map words).length = words.length := by
    rw [readCommands, List.length_map, List.length_zipIdx]
  have hdelays : delays (writeCommands map (writesTo words)) = 0 := by
    simp [delays, writeCommands, Function.comp_def]
  have hall : delays (writeCommands map (writesTo words) ++ readCommands map words) =
      ∑ i ∈ Finset.range words.length, i % 4 := by
    rw [delays, List.map_append, List.sum_append]
    change delays (writeCommands map (writesTo words)) + delays (readCommands map words) = _
    rw [hdelays, delays_readCommands, Nat.zero_add]
  unfold Report.total
  rw [hall, List.countP_append, List.countP_append, List.countP_eq_length.mpr hwrite,
    List.countP_eq_zero.mpr (by simpa using hread), List.countP_eq_zero.mpr (by simpa using hwrite),
    List.countP_eq_length.mpr (by simpa using hread), hwrites, hreads, Nat.add_zero, Nat.zero_add]

end Workload

namespace Memory

variable {t : ElementType} {m : Memory t}

theorem Reachable.exists_addressed (hm : m.Reachable)
    (hfits : m.config.totalEntries * t.width < 2 ^ 64) :
    ∃ own, AddressMap.ofGeometry m.geometry = .ok own ∧ own.Within m.geometry ∧
      0 < own.words ∧ Workload.Addressed own := by
  have hg := hm.sound.consistent
  obtain ⟨own, hown, hbanks, hentries, hwithin⟩ := AddressMap.ofGeometry_eq_ok hg
  have hword : m.geometry.wordWidth = t.width := hm.sound.wordWidth
  obtain ⟨-, -, -, hpos, hdvd, -, hgeometry⟩ := Config.validate_eq_ok_iff.mp hm.sound.valid
  have hwords : own.words = m.config.totalEntries := by
    rw [AddressMap.words, hbanks, hentries, hgeometry, Nat.div_mul_cancel hdvd]
  have hparts : AddressMap.ofParts t.width m.geometry.bankCount m.geometry.entriesPerBank =
      .ok own := by
    rw [← hword]
    exact hown
  have hspan := AddressMap.two_pow_offsetBits_le hparts hpos
  refine ⟨own, hown, hwithin, ?_, hwithin.numbered hg, ?_⟩
  · rw [AddressMap.words, hbanks, hentries]
    exact Nat.mul_pos hg.entries_pos hg.banks_pos
  · rw [hwords]
    exact (Nat.mul_le_mul_left _ hspan).trans hfits.le

/-- Words of 64 bits or more, all of whose bits can be counted, play any reference script to its
end, whatever they held before.  Each chosen word is written once and read once for each time that
it was chosen. -/
theorem plays_referenceScript (hm : m.Reachable) (hwidth : 64 ≤ t.width)
    (hfits : m.config.totalEntries * t.width < 2 ^ 64) {length : Nat} (hlength : length < 2 ^ 63)
    (seed warmup : UInt64) :
    ∃ own script report, AddressMap.ofGeometry m.geometry = .ok own ∧
      Workload.referenceScript own length seed = .ok script ∧
      (Player.play ⟨script, warmup⟩ (⟨m, own, 0⟩ : MemoryBus t)).1 = .ok report ∧
      report.writes = length ∧ report.reads = length ∧
      report.idleCycles.toNat =
        min (2 ^ 64 - 1) (warmup.toNat + ∑ i ∈ Finset.range length, i % 4) := by
  obtain ⟨own, hown, hwithin, hpos, haddressed⟩ := hm.exists_addressed hfits
  obtain ⟨words, rfl, hwords, hscript⟩ := Workload.exists_referenceScript_eq_ok haddressed hpos
    (show 2 * length < Size.limit by unfold Size.limit UInt64.size; omega) seed
  have hclean := Workload.clean_referenceScript m hwidth haddressed hwords
  have hplay := Player.play_of_clean (p := ⟨_, warmup⟩) hm.sound hwithin hclean
  rw [Workload.total_referenceScript] at hplay
  refine ⟨own, _, _, hown, hscript, hplay, rfl, rfl, ?_⟩
  have hlargest : Size.limit - 1 = 2 ^ 64 - 1 := rfl
  rw [hlargest, Nat.min_comm]
  exact Nat.mod_eq_of_lt (Nat.lt_of_le_of_lt (Nat.min_le_left ..) (by decide))

theorem plays_referenceScript_tags :
    Workload.accessPattern 4 6 42 = .ok [2, 0, 3, 3, 2, 3] ∧
      ∃ m own script report, Memory.new (.array .tag12 6) ⟨4, 2, 3⟩ = .ok m ∧
        AddressMap.ofGeometry m.geometry = .ok own ∧
        Workload.referenceScript own 6 42 = .ok script ∧
        (Player.play ⟨script, 20⟩ (⟨m, own, 0⟩ : MemoryBus (.array .tag12 6))).1 = .ok report ∧
        report.writes = 6 ∧ report.reads = 6 ∧ report.idleCycles.toNat = 27 := by
  have hvalid : (⟨4, 2, 3⟩ : Config).validate (ElementType.array .tag12 6).width =
      .ok ⟨2, 2, 3, 72⟩ := rfl
  obtain ⟨m, hnew, hm, hgeometry⟩ := exists_fresh hvalid (by decide)
  have hentries : m.config.totalEntries = 4 := by
    obtain ⟨-, -, -, -, hdvd, -, hsame⟩ := Config.validate_eq_ok_iff.mp hm.sound.valid
    rw [hgeometry, Geometry.mk.injEq] at hsame
    rw [← Nat.div_mul_cancel hdvd, ← hsame.1, ← hsame.2.1]
  obtain ⟨own, script, report, hown, hscript, hplay, hwrites, hreads, hidle⟩ :=
    plays_referenceScript hm (by decide) (by rw [hentries]; decide) (show 6 < 2 ^ 63 by decide) 42
      20
  exact ⟨rfl, m, own, script, report, hnew, hown, hscript, hplay, hwrites, hreads, hidle⟩

end Memory

end BankedStore
