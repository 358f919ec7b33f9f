import LinuxBuild.Header
import LinuxBuild.Print

/-!
# What `saved` says about Content-Length

A willing kernel shows that everything the checks let through is saved, so the
responses that are saved with another length than the header writes can be
named: a NUL hides the line, or the written number wraps to the length.
-/

namespace LinuxBuild

/-! ## A willing kernel -/

theorem sysWrite_willing {s : Nat} {bytes : Bytes} {k : Kernel} (hk : k.Willing)
    (hs : k.object s = some .stream) (hb : bytes ≠ []) : 0 < (sysWrite s bytes k).1 := by
  have hpos := List.length_pos_iff.mpr hb
  have ha : 0 < k.answer := hk k.asked
  simp only [sysWrite, if_neg (Int.not_lt.mpr (Int.le_of_lt ha)), hs]
  omega

theorem writeLoop_willing {s fuel written : Nat} {rest : Bytes} {k : Kernel} (hk : k.Willing)
    (hs : k.object s = some .stream) : 0 ≤ (writeLoop fuel s rest written k).1 := by
  induction fuel generalizing rest written k with
  | zero => exact Int.natCast_nonneg _
  | succ fuel ih =>
    simp only [writeLoop]
    split
    · exact Int.natCast_nonneg _
    · rename_i hr
      have hcount := sysWrite_willing hk hs hr
      have hstream := sysWrite_stream rest hs
      rw [if_neg (Int.not_le.mpr hcount)]
      exact ih (by intro n; rw [hstream.answers]; exact hk n) ((hstream.object s).trans hs)

theorem writeEach_willing {s : Nat} {texts : List Bytes} {k : Kernel} (hk : k.Willing)
    (hs : k.object s = some .stream) : (writeEach s texts k).1 = true := by
  induction texts generalizing k with
  | nil => rfl
  | cons text texts ih =>
    have hstream : OnStream s [] k (writeAll s text k).2 := writeLoop_stream hs
    have hresult : 0 ≤ (writeAll s text k).1 := writeLoop_willing hk hs
    simp only [writeEach]
    rw [if_neg (Int.not_lt.mpr hresult)]
    exact ih (by intro n; rw [hstream.answers]; exact hk n) ((hstream.object s).trans hs)

theorem sysRead_willing {s : Nat} (count : Nat) {k : Kernel} (hk : k.Willing)
    (hs : k.object s = some .stream) : 0 ≤ (sysRead s count k).1 := by
  have ha : 0 < k.answer := hk k.asked
  simp only [sysRead, if_neg (Int.not_lt.mpr (Int.le_of_lt ha)), hs]
  exact Int.natCast_nonneg _

/-- The reader stores the block byte for byte and stops after it. -/
theorem readHeaderFrom_willing {s room : Nat} (header : Bytes) {rest body : Bytes} {k : Kernel}
    (hk : k.Willing) (hs : k.object s = some .stream) (hi : k.incoming = rest ++ body)
    (hblock : IsHeaderBlock (header ++ rest)) (hrest : rest ≠ []) (hroom : rest.length ≤ room) :
    (readHeaderFrom s room header k).1 = httpStatusOk (header ++ rest) ∧
    (readHeaderFrom s room header k).2.1 = header ++ rest ∧
    (readHeaderFrom s room header k).2.2.incoming = body := by
  induction room generalizing header rest k with
  | zero => exact absurd (List.length_eq_zero_iff.mp (by omega)) hrest
  | succ room ih =>
    obtain ⟨c, rest, rfl⟩ := List.exists_cons_of_ne_nil hrest
    obtain ⟨hread, hlen, hcount⟩ := sysRead_stream 1 (k := k) hs Nat.one_pos
    have hnonneg := sysRead_willing 1 hk hs
    simp only [readHeaderFrom]
    revert hread hlen hcount hnonneg
    generalize sysRead s 1 k = r
    obtain ⟨count, bytes, k'⟩ := r
    intro hread hlen hcount hnonneg
    simp only at hread hlen hcount hnonneg ⊢
    have hcount : count = bytes.length ∧ count ≠ 0 := by
      obtain ⟨hneg, _⟩ | ⟨heq, hend⟩ := hcount
      · omega
      · constructor
        · exact heq
        · intro hz
          rw [hi] at hend
          exact absurd (hend hz) (by simp)
    obtain ⟨c', rfl⟩ : ∃ c, bytes = [c] := List.length_eq_one_iff.mp (by omega)
    have hhead := hread.incoming
    rw [hi] at hhead
    simp only [List.cons_append, List.nil_append, List.cons.injEq] at hhead
    obtain ⟨rfl, hincoming⟩ := hhead
    rw [if_neg (by omega)]
    have hassoc : header ++ [c] ++ rest = header ++ c :: rest := by simp
    split
    · rename_i hsuffix
      have heq : header ++ [c] = header ++ c :: rest := hblock.2 _
        ⟨rest, hassoc⟩ (List.isSuffixOf_iff_suffix.mp hsuffix)
      have hnil : rest = [] := by simpa using List.append_cancel_left heq
      subst hnil
      exact ⟨rfl, rfl, hincoming.symm⟩
    · rename_i hsuffix
      have hne : rest ≠ [] := by
        rintro rfl
        exact hsuffix (List.isSuffixOf_iff_suffix.mpr hblock.1)
      have hrec := @ih (header ++ [c]) rest k'
        (by intro n; rw [hread.answers]; exact hk n) ((hread.object s).trans hs) hincoming.symm
        (by rw [hassoc]; exact hblock) hne (by simp only [List.length_cons] at hroom; omega)
      rw [hassoc] at hrec
      exact hrec

theorem readResponseHeader_willing {s : Nat} {block : Bytes} (body : Bytes) {k : Kernel} (hk : k.Willing)
    (hs : k.object s = some .stream) (hi : k.incoming = block ++ body)
    (hblock : IsHeaderBlock block) (hshort : block.length ≤ 1023) :
    (readResponseHeader s 1024 k).1 = httpStatusOk block ∧
    (readResponseHeader s 1024 k).2.1 = block ∧
    (readResponseHeader s 1024 k).2.2.incoming = body := by
  have hne : block ≠ [] := by
    rintro rfl
    exact absurd (List.suffix_nil.mp hblock.1) (by decide)
  exact readHeaderFrom_willing [] hk hs hi hblock hne hshort

theorem sysWrite_file_willing {o i : Nat} {bytes : Bytes} {k : Kernel} (hk : k.Willing)
    (ho : k.object o = some (.file i (k.files.data i).length)) (hb : bytes ≠ [])
    (hroom : (k.files.data i).length + bytes.length ≤ maxFileSize) :
    0 < (sysWrite o bytes k).1 := by
  have hpos := List.length_pos_iff.mpr hb
  have ha : 0 < k.answer := hk k.asked
  simp only [sysWrite, if_neg (Int.not_lt.mpr (Int.le_of_lt ha)), ho]
  split
  · omega
  · simp only; omega

theorem writeLoop_file_willing {o i fuel written : Nat} {rest : Bytes} {k : Kernel}
    (hk : k.Willing) (ho : k.object o = some (.file i (k.files.data i).length))
    (hroom : (k.files.data i).length + rest.length ≤ maxFileSize) :
    0 ≤ (writeLoop fuel o rest written k).1 := by
  induction fuel generalizing rest written k with
  | zero => exact Int.natCast_nonneg _
  | succ fuel ih =>
    simp only [writeLoop]
    split
    · exact Int.natCast_nonneg _
    · rename_i hr
      have hcount := sysWrite_file_willing hk ho hr hroom
      obtain ⟨n, hcopied, hn, hresult⟩ := sysWrite_file hk.writesAdvance ho hr
      have heq : (sysWrite o rest k).1.toNat = n := by omega
      rw [if_neg (Int.not_le.mpr hcount)]
      apply ih (by intro m; rw [hcopied.answers]; exact hk m) hcopied.handle
      rw [hcopied.data, heq, List.length_append, List.length_take, List.length_drop]
      omega

theorem copyBody_willing {s o i fuel : Nat} (total : Nat) {k : Kernel} (hk : k.Willing) (hso : s ≠ o)
    (hs : k.object s = some .stream) (ho : k.object o = some (.file i (k.files.data i).length))
    (hf : k.incoming.length < fuel)
    (hroom : (k.files.data i).length + k.incoming.length ≤ maxFileSize) :
    (copyBody fuel s o total k).1 = false := by
  induction fuel generalizing total k with
  | zero => omega
  | succ fuel ih =>
    obtain ⟨hread, _, hcount⟩ := sysRead_stream 1024 hs (by decide)
    have hnonneg := sysRead_willing 1024 hk hs
    simp only [copyBody]
    revert hread hcount hnonneg
    generalize sysRead s 1024 k = r
    obtain ⟨count, buffer, k₁⟩ := r
    intro hread hcount hnonneg
    simp only at hread hcount hnonneg ⊢
    split
    · rfl
    · rename_i hnz
      rw [if_neg (by omega)]
      have hcopied := hread.copied ho
      have hk₁ : k₁.Willing := by intro m; rw [hcopied.answers]; exact hk m
      have hlen := congrArg List.length hread.incoming
      rw [List.length_append] at hlen
      have hdata : k₁.files.data i = k.files.data i := by rw [hread.files]
      have hresult : 0 ≤ (writeAll o buffer k₁).1 :=
        writeLoop_file_willing hk₁ hcopied.handle (by rw [hdata]; omega)
      obtain ⟨n, hwrite, hdone⟩ := writeAll_file buffer hk₁.writesAdvance hcopied.handle
      revert hresult hwrite hdone
      generalize writeAll o buffer k₁ = r
      obtain ⟨result, k₂⟩ := r
      intro hresult hwrite hdone
      simp only at hresult hwrite hdone ⊢
      rw [if_neg (by omega)]
      have hn : n = buffer.length := by omega
      rw [hn, List.take_length] at hwrite
      have hincoming : k₂.incoming = k₁.incoming := by simpa using hwrite.incoming.symm
      refine ih _ (by intro m; rw [hwrite.answers]; exact hk₁ m)
        ((hwrite.others s hso).trans ((hread.object s).trans hs)) hwrite.handle ?_ ?_
      · rw [hincoming]; omega
      · rw [hincoming, hwrite.data, hdata, List.length_append]; omega

/-- What was printed starts with `saved `. -/
def PrintsSaved (k k' : Kernel) : Prop := ∃ rest, k'.console = k.console ++ (ascii "saved " ++ rest)

theorem fetchBody_willing (expected : Option Nat) (path : Bytes) {s o i : Nat} {k : Kernel}
    (hk : k.Willing) (hso : s ≠ o) (hs : k.object s = some .stream)
    (ho : k.object o = some (.file i 0)) (hd : k.files.data i = [])
    (hroom : k.incoming.length ≤ maxFileSize)
    (hexp : ∀ v, expected = some v → v = k.incoming.length) :
    PrintsSaved k (fetchBody expected s o path k) := by
  have ho' : k.object o = some (.file i (k.files.data i).length) := by rw [ho, hd]; rfl
  have hok := copyBody_willing 0 hk hso hs ho' (Nat.lt_succ_self _)
    (by rw [hd]; simpa using hroom)
  obtain ⟨taken, bytes, hcopied, _, hdone⟩ := copyBody_spec (k.incoming.length + 1) 0
    hk.writesAdvance hso hs ho' (Nat.lt_succ_self _) (by decide)
  simp only [fetchBody]
  revert hok hcopied hdone
  generalize copyBody (k.incoming.length + 1) s o 0 k = r
  obtain ⟨failed, total, k₁⟩ := r
  rintro rfl hcopied hdone
  obtain ⟨rfl, htotal⟩ := hdone rfl
  simp only at hcopied htotal ⊢
  have hlen : total = k.incoming.length := by
    rw [htotal, Nat.zero_add]
    exact Nat.mod_eq_of_lt (Nat.lt_of_le_of_lt hroom maxFileSize_lt)
  have hany : expected.any (total ≠ ·) = false := by
    cases expected with
    | none => rfl
    | some v => simp [hexp v rfl, hlen]
  rw [hany, Bool.or_self, if_neg (by simp), PrintsSaved, savedReport_console, sysClose_console,
    sysClose_console, hcopied.console, savedLine]
  exact ⟨u64Text total ++ ascii " bytes to " ++ path ++ ascii "\n", by
    simp only [List.append_assoc]⟩

theorem fetchInto_willing (expected : Option Nat) (path : Bytes) {s : Nat} {k : Kernel}
    (hk : k.Willing) (hs : k.object s = some .stream) (hroom : k.incoming.length ≤ maxFileSize)
    (hexp : ∀ v, expected = some v → v = k.incoming.length) :
    PrintsSaved k (fetchInto expected s path k) := by
  have hsome : (sysCreate path k).1 ≠ none := by
    have ha : 0 < k.answer := hk k.asked
    rw [sysCreate, if_neg (Int.not_lt.mpr (Int.le_of_lt ha))]
    simp
  obtain ⟨hnone, _⟩ |
    ⟨o, i, hopened, hfree, _, hanswers, hincoming, hconsole, _, hdata, hobject, hothers⟩ :=
    sysCreate_spec path k
  · exact absurd hnone hsome
  · have hso : s ≠ o := by
      rintro rfl
      rw [hs] at hfree
      cases hfree
    simp only [fetchInto]
    revert hopened hanswers hincoming hconsole hdata hobject hothers
    generalize sysCreate path k = r
    obtain ⟨fd, k₁⟩ := r
    rintro rfl hanswers hincoming hconsole hdata hobject hothers
    simp only at hanswers hincoming hconsole hdata hobject hothers ⊢
    have hk₁ : k₁.Willing := by intro n; rw [hanswers]; exact hk n
    have hmode : 0 ≤ k₁.answer := Int.le_of_lt (hk₁ _)
    simp only [sysFchmod, hobject, hmode, decide_true]
    obtain ⟨rest, hrest⟩ := fetchBody_willing expected path (k := k₁.tick)
      hk₁ hso ((hothers s hso).trans hs) hobject hdata
      (by rw [Kernel.tick_incoming, hincoming]; exact hroom)
      (by rw [Kernel.tick_incoming, hincoming]; exact hexp)
    exact ⟨rest, by rw [hrest, Kernel.tick_console, hconsole]⟩

theorem fetchFrom_willing {w : Word} {s : Nat} (host remote path : Bytes) {block body : Bytes}
    {k : Kernel}
    (hk : k.Willing) (hs : k.object s = some .stream) (hi : k.incoming = block ++ body)
    (hblock : IsHeaderBlock block) (hshort : block.length ≤ 1023)
    (hstatus : httpStatusOk block = true) (hvalid : contentLength w block ≠ .invalid)
    (hroom : body.length ≤ maxFileSize)
    (hlen : ∀ v, contentLength w block = .length v → v = body.length) :
    PrintsSaved k (fetchFrom w s host remote path k) := by
  have hsent : OnStream s [] k (sendRequest s host remote k).2 := writeEach_stream hs
  have hok : (sendRequest s host remote k).1 = true := writeEach_willing hk hs
  simp only [fetchFrom]
  revert hsent hok
  generalize sendRequest s host remote k = r
  obtain ⟨sent, k₁⟩ := r
  rintro hsent rfl
  have hk₁ : k₁.Willing := by intro n; rw [hsent.answers]; exact hk n
  have hs₁ := (hsent.object s).trans hs
  obtain ⟨hcomplete, hstored, hbody⟩ := readResponseHeader_willing body hk₁ hs₁
    (hsent.incoming.symm.trans hi) hblock hshort
  obtain ⟨hread, _, _⟩ := readResponseHeader_spec hs₁
  simp only
  revert hcomplete hstored hbody hread
  generalize readResponseHeader s 1024 k₁ = r
  obtain ⟨complete, header, k₂⟩ := r
  intro hcomplete hstored hbody hread
  simp only at hcomplete hstored hbody hread
  subst hstored
  rw [hstatus] at hcomplete
  subst hcomplete
  have hk₂ : k₂.Willing := by intro n; rw [hread.answers]; exact hk₁ n
  have hsaves : ∀ expected, (∀ v, expected = some v → v = body.length) →
      PrintsSaved k (fetchInto expected s path k₂) := by
    intro expected hexp
    obtain ⟨rest, hrest⟩ := fetchInto_willing expected path hk₂
      ((hread.object s).trans hs₁) (by rw [hbody]; exact hroom) (by rw [hbody]; exact hexp)
    exact ⟨rest, by rw [hrest, hread.console, hsent.console]⟩
  simp only
  cases hc : contentLength w header with
  | invalid => exact absurd hc hvalid
  | absent => exact hsaves none (by simp)
  | length value => exact hsaves (some value) fun v hv => hlen v (by rw [hc, Option.some.inj hv])

theorem connectTcp_willing {host : Bytes} {address : Nat} (port : Nat) {k : Kernel} (hk : k.Willing)
    (hhost : parseIpv4 host = some address) : (connectTcp host port k).1 ≠ none := by
  have ha : 0 < k.answer := hk k.asked
  have hsome : (sysSocket k).1 ≠ none := by
    rw [sysSocket, if_neg (Int.not_lt.mpr (Int.le_of_lt ha))]
    simp
  simp only [connectTcp, hhost]
  obtain ⟨hnone, _⟩ | ⟨s, hs, hquiet, hobject, _, _⟩ := sysSocket_spec k
  · exact absurd hnone hsome
  · revert hs hquiet hobject
    generalize sysSocket k = r
    obtain ⟨fd, k₁⟩ := r
    rintro rfl hquiet hobject
    have hneg : ¬ k₁.answer < 0 := by
      have : 0 < k₁.answer := by
        rw [Kernel.answer, hquiet.answers]
        exact hk _
      omega
    simp only [sysConnect, hobject, if_neg hneg]
    simp

/-- A fetch with valid arguments. -/
def fetchArgs : List Bytes :=
  [ascii "fetch", ascii "10.0.2.2", ascii "80", ascii "/", ascii "file"]

/-- What passes every check is saved by a willing kernel. -/
theorem cmdFetch_willing {w : Word} {block body : Bytes} {k : Kernel} (hk : k.Willing)
    (hi : k.incoming = block ++ body) (hblock : IsHeaderBlock block)
    (hshort : block.length ≤ 1023) (hstatus : httpStatusOk block = true)
    (hvalid : contentLength w block ≠ .invalid) (hroom : body.length ≤ maxFileSize)
    (hlen : ∀ v, contentLength w block = .length v → v = body.length) :
    PrintsSaved k (cmdFetch w fetchArgs k) := by
  have hport : parseUnsigned w (ascii "80") = some 80 := by cases w <;> decide
  have hhost : parseIpv4 (ascii "10.0.2.2") = some 33685514 := by decide
  have hremote : (ascii "/").head? = some '/'.toUInt8 := rfl
  have hsome := connectTcp_willing 80 hk hhost
  simp only [cmdFetch, fetchArgs, hport, hremote]
  obtain ⟨hnone, _⟩ | ⟨s, hs, hquiet, hobject, hincoming, hconsole⟩ :=
    connectTcp_spec (ascii "10.0.2.2") 80 k
  · exact absurd hnone hsome
  · revert hs hquiet hobject hincoming hconsole
    generalize connectTcp (ascii "10.0.2.2") 80 k = r
    obtain ⟨fd, k₁⟩ := r
    rintro rfl hquiet hobject hincoming hconsole
    obtain ⟨rest, hrest⟩ := fetchFrom_willing (ascii "10.0.2.2") (ascii "/")
      (ascii "file") (w := w) (k := k₁)
      (by intro n; rw [hquiet.answers]; exact hk n) hobject (hincoming.trans hi) hblock hshort
      hstatus hvalid hroom hlen
    exact ⟨rest, hrest.trans (by rw [hconsole])⟩

/-! ## The declared length -/

theorem headerBlock_unique {a b xs ys : Bytes} (ha : IsHeaderBlock a) (hb : IsHeaderBlock b)
    (h : a ++ xs = b ++ ys) : a = b ∧ xs = ys := by
  have hpa : a <+: a ++ xs := List.prefix_append a xs
  have hpb : b <+: a ++ xs := h ▸ List.prefix_append b ys
  have heq : a = b := by
    obtain hle | hle := Nat.le_total a.length b.length
    · exact hb.2 a (List.prefix_of_prefix_length_le hpa hpb hle) ha.1
    · exact (ha.2 b (List.prefix_of_prefix_length_le hpb hpa hle) hb.1).symm
  subst heq
  exact ⟨rfl, List.append_cancel_left h⟩

theorem headerBlock_getLast {block : Bytes} (h : IsHeaderBlock block) :
    block.getLast? = some lf := by
  obtain ⟨front, rfl⟩ := h.1
  rw [List.getLast?_append]
  rfl

theorem contentLength_length {w : Word} {block : Bytes} {v : Nat} (h : IsHeaderBlock block) :
    contentLength w block = .length v ↔
      ∃ line, lengthLine block = some line ∧ hiddenLength block = false ∧
        wellFormed line = true ∧ Numeral.falls w.bits 0 (writtenDigits line) = false ∧
        Numeral.value (writtenDigits line) % 2 ^ w.bits = v := by
  rw [contentLength_eq (.inr (headerBlock_getLast h))]
  cases lengthLine block with
  | none => simp
  | some line =>
    cases hiddenLength block with
    | true => simp
    | false =>
      have hacc := @Numeral.accumulate_eq_some w.bits 0 v (writtenDigits line)
      rw [Nat.zero_mod] at hacc
      cases hw : wellFormed line with
      | false => simp [lineLength, hw]
      | true =>
        simp only [lineLength, hw, if_true, Bool.false_eq_true, if_false, Option.some.injEq,
          exists_eq_left', true_and]
        rw [← Numeral.value] at hacc
        rw [← hacc]
        cases Numeral.accumulate w.bits 0 (writtenDigits line) <;> simp

theorem contentLength_invalid {w : Word} {block : Bytes} (h : IsHeaderBlock block)
    (hv : contentLength w block ≠ .invalid) (hh : hiddenLength block = false) {line : Bytes}
    (hl : lengthLine block = some line) :
    contentLength w block = .length (Numeral.value (writtenDigits line) % 2 ^ w.bits) := by
  rw [contentLength_eq (.inr (headerBlock_getLast h)), hl, hh] at hv
  rw [contentLength_length h]
  simp only [Bool.false_eq_true, if_false, lineLength] at hv
  cases hw : wellFormed line with
  | false => simp [hw] at hv
  | true =>
    refine ⟨line, hl, hh, hw, ?_, rfl⟩
    cases hf : Numeral.falls w.bits 0 (writtenDigits line) with
    | false => rfl
    | true =>
      have := Numeral.accumulate_of_falls hf
      rw [Nat.zero_mod] at this
      simp [hw, this] at hv

theorem writtenLength_of_wellFormed {line : Bytes} (h : wellFormed line = true) :
    writtenLength line = some (Numeral.value (writtenDigits line)) := by
  simp only [wellFormed, Bool.and_eq_true, decide_eq_true_eq] at h
  rw [writtenLength, if_neg h.1]

/-- A body as long as the first Content-Length line says is saved, if the number
fits the word and no NUL hides the line. -/
theorem fetch_saves_honest_response {w : Word} {block body line : Bytes} {k : Kernel}
    (hk : k.Willing) (hi : k.incoming = block ++ body) (hblock : IsHeaderBlock block)
    (hshort : block.length ≤ 1023) (hstatus : httpStatusOk block = true)
    (hroom : body.length ≤ maxFileSize) (hl : lengthLine block = some line)
    (hh : hiddenLength block = false) (hw : wellFormed line = true)
    (hvalue : Numeral.value (writtenDigits line) = body.length) (hfits : body.length < 2 ^ w.bits) :
    PrintsSaved k (cmdFetch w fetchArgs k) := by
  have hfalls : Numeral.falls w.bits 0 (writtenDigits line) = false := by
    apply Numeral.not_falls_of_lt
    rw [← Numeral.value, hvalue]
    exact hfits
  have hword : Numeral.value (writtenDigits line) % 2 ^ w.bits = body.length := by
    rw [hvalue]
    exact Nat.mod_eq_of_lt hfits
  have hlength : contentLength w block = .length body.length :=
    (contentLength_length hblock).mpr ⟨line, hl, hh, hw, hfalls, hword⟩
  apply cmdFetch_willing hk hi hblock hshort hstatus
  · rw [hlength]
    simp
  · exact hroom
  · rintro v hv
    rw [hlength] at hv
    cases hv
    rfl

/-- A run on this response that prints `saved` wrote as many bytes as the first
Content-Length line says. -/
def SavesDeclared (w : Word) (stream : Bytes) : Prop :=
  ∀ argv k, k.WritesAdvance → k.incoming = stream → PrintsSaved k (cmdFetch w argv k) →
    ∀ block body line, stream = block ++ body → IsHeaderBlock block →
      lengthLine block = some line →
      ∃ content, (cmdFetch w argv k).files.read (localPath argv) = some content ∧
        writtenLength line = some content.length

/-- The checks pass, with a NUL before the line, or with a number that reaches
the length of the body only reduced to the word. -/
def Misleads (w : Word) (stream : Bytes) : Prop :=
  ∃ block body line, stream = block ++ body ∧ IsHeaderBlock block ∧ block.length ≤ 1023 ∧
    httpStatusOk block = true ∧ body.length ≤ maxFileSize ∧ lengthLine block = some line ∧
    (hiddenLength block = true ∧ writtenLength line ≠ some body.length ∨
      hiddenLength block = false ∧ wellFormed line = true ∧
        Numeral.falls w.bits 0 (writtenDigits line) = false ∧
        Numeral.value (writtenDigits line) % 2 ^ w.bits = body.length ∧
        Numeral.value (writtenDigits line) ≠ body.length)

theorem saved_of_printsSaved {w : Word} {argv : List Bytes} {k : Kernel} (hk : k.WritesAdvance)
    (h : PrintsSaved k (cmdFetch w argv k)) :
    ∃ o i block body, Saved w (localPath argv) o i block body k (cmdFetch w argv k) := by
  obtain ⟨rest, hrest⟩ := h
  have hclash : ∀ text, (cmdFetch w argv k).console = k.console ++ text →
      text.head? ≠ some 's'.toUInt8 → False := by
    intro text hc hs
    rw [hrest] at hc
    rw [← List.append_cancel_left hc] at hs
    exact hs rfl
  obtain h | h | ⟨o, i, block, body, h⟩ := cmdFetch_spec w argv hk
  · obtain ⟨text, hc, hs⟩ := h.complains
    exact (hclash text hc hs).elim
  · exact h
  · refine (hclash _ h.console ?_).elim
    rw [show (errorLine (localPath argv)).head? = some 'f'.toUInt8 from rfl]
    decide

/-- On a misleading response, a willing kernel makes init print `saved` over a
body that is not the declared one. -/
theorem misled_boot {w : Word} {stream : Bytes} (h : Misleads w stream) :
    ∃ block body line, stream = block ++ body ∧ IsHeaderBlock block ∧
      lengthLine block = some line ∧
      PrintsSaved (.boot (fun _ => 1) stream) (cmdFetch w fetchArgs (.boot (fun _ => 1) stream)) ∧
      ∀ content,
        (cmdFetch w fetchArgs (.boot (fun _ => 1) stream)).files.read (localPath fetchArgs) =
          some content → writtenLength line ≠ some content.length := by
  obtain ⟨block, body, line, rfl, hblock, hshort, hstatus, hroom, hline, hcase⟩ := h
  have hk : (Kernel.boot (fun _ => 1) (block ++ body)).Willing :=
    fun _ => Int.one_pos
  have hvalid : contentLength w block ≠ .invalid ∧
      ∀ v, contentLength w block = .length v → v = body.length := by
    obtain ⟨hh, _⟩ | ⟨hh, hw, hf, hv, _⟩ := hcase
    · rw [contentLength_eq (.inr (headerBlock_getLast hblock)), hline, hh]
      simp
    · rw [(contentLength_length hblock).mpr ⟨line, hline, hh, hw, hf, hv⟩]
      simp
  have hprints := cmdFetch_willing hk rfl hblock hshort hstatus hvalid.1 hroom hvalid.2
  refine ⟨block, body, line, rfl, hblock, hline, hprints, fun content hread hwritten => ?_⟩
  obtain ⟨o, i, block', body', hsaved⟩ := saved_of_printsSaved hk.writesAdvance hprints
  obtain ⟨rfl, rfl⟩ := headerBlock_unique hsaved.header hblock hsaved.stream.symm
  rw [hsaved.content] at hread
  cases hread
  obtain ⟨_, hne⟩ | ⟨_, hw, _, _, hne⟩ := hcase
  · exact hne hwritten
  · rw [writtenLength_of_wellFormed hw] at hwritten
    exact hne (Option.some.inj hwritten)

theorem not_savesDeclared {w : Word} {stream : Bytes} (h : Misleads w stream) :
    ¬ SavesDeclared w stream := by
  obtain ⟨block, body, line, hstream, hblock, hline, hprints, hother⟩ := misled_boot h
  intro hsaves
  have hwilling : (Kernel.boot (fun _ => 1) stream).Willing := fun _ => Int.one_pos
  obtain ⟨content, hread, hwritten⟩ :=
    hsaves fetchArgs _ hwilling.writesAdvance rfl hprints block body line hstream hblock hline
  exact hother content hread hwritten

theorem savesDeclared_of_not_misleads {w : Word} {stream : Bytes} (h : ¬ Misleads w stream) :
    SavesDeclared w stream := by
  rintro argv k hk rfl hprints block body line hstream hblock hline
  obtain ⟨o, i, block', body', hsaved⟩ := saved_of_printsSaved hk hprints
  obtain ⟨rfl, rfl⟩ := headerBlock_unique hsaved.header hblock (hsaved.stream.symm.trans hstream)
  refine ⟨body', hsaved.content, Classical.byContradiction fun hne => h ?_⟩
  refine ⟨block', body', line, hstream, hblock, hsaved.short, hsaved.status, hsaved.bounded, hline,
    ?_⟩
  cases hh : hiddenLength block' with
  | true => exact .inl ⟨rfl, hne⟩
  | false =>
    have hlen := contentLength_invalid hblock hsaved.valid hh hline
    obtain ⟨line', hline', _, hw, hf, _⟩ := (contentLength_length hblock).mp hlen
    rw [hline] at hline'
    cases hline'
    refine .inr ⟨rfl, hw, hf, hsaved.declared _ hlen, fun heq => hne ?_⟩
    rw [writtenLength_of_wellFormed hw, heq]

/-- For every response: what `saved` reports is what was declared, unless the
response misleads. -/
theorem fetch_saves_declared_length_iff (w : Word) (stream : Bytes) :
    SavesDeclared w stream ↔ ¬ Misleads w stream :=
  ⟨fun h hm => not_savesDeclared hm h, savesDeclared_of_not_misleads⟩

/-- A NUL before the line, and three bytes of a body of five. -/
def truncatedResponse : Bytes × Bytes :=
  (ascii "HTTP/1.0 200 OK\r\nX: \u0000\r\nContent-Length: 5\r\n\r\n", ascii "abc")

theorem fetch_truncated_saved :
    ¬ ∀ w stream, SavesDeclared w stream := by
  intro h
  refine not_savesDeclared (w := .rv32) ?_ (h .rv32 (truncatedResponse.1 ++ truncatedResponse.2))
  exact ⟨_, _, ascii "Content-Length: 5\r", rfl, by decide, by decide, by decide, by decide,
    by decide, .inl ⟨by decide, by decide⟩⟩

end LinuxBuild
