import PowerApi.Cson.Scalars
import PowerApi.Cson.Strings

namespace cson

section Accepts

variable {D : Type} {lib : Doubles D} {setup : Setup} {jc : Parser D} {c : Config Bytes D} {text : Bytes} {b : UInt8}
  {v : Value Bytes D} {n : ℕ}

theorem Between.pending (h : Between setup jc c) (hphase : c.phase = .after) : Pending lib setup jc c :=
  ⟨h.settles, h.state.trans (by rw [hphase]; rfl), hphase, .inl h.type⟩

/-- The mode of a container is never the one below them all. -/
theorem frames_nil_of_done (hmodes : c.modes.head? = some .DONE) : c.frames = [] := by
  cases hframes : c.frames with
  | nil => rfl
  | cons frame frames =>
    simp only [Config.modes, hframes, List.head?_cons, Option.some.injEq] at hmodes
    unfold inner_mode at hmodes
    split at hmodes
    · cases hmodes
    · cases hmodes
    · cases hmodes
    · cases frame <;> cases hmodes

theorem done_ok {jc' : Parser D} (hdone : JSON_parser_done jc = .ok jc') : jc.stack.head? = some .DONE ∧ jc'.ctx = jc.ctx := by
  simp only [JSON_parser_done] at hdone
  split at hdone
  · simp only [Parser.pop] at hdone
    split at hdone
    · next top stack hstack =>
      split at hdone
      · next htop =>
        obtain rfl := Except.ok.inj hdone
        exact ⟨by rw [hstack, htop]; rfl, rfl⟩
      · cases hdone
    · cases hdone
  · cases hdone

/-- The end of the text. -/
theorem Pending.accepts_nil (h : Pending lib setup jc c) : Accepts lib jc [] v ↔ c.Final v := by
  have hsettled : c.frames = [] → Builds jc.ctx c := by
    intro hframes
    obtain ⟨ctx, hsettle, hbuilds⟩ := h.settled
    rcases h.inner with htype | hne
    · simp only [Parser.settle, htype] at hsettle
      obtain rfl := Except.ok.inj hsettle
      exact hbuilds
    · exact absurd hframes hne
  constructor
  · rintro ⟨jc', root, hdone, hroot, hstored⟩
    obtain ⟨hhead, hctx⟩ := done_ok hdone
    have hframes := frames_nil_of_done (h.modes ▸ hhead)
    obtain ⟨w, hw⟩ := Option.isSome_iff_exists.mp (h.wf.rooted h.phase hframes)
    obtain ⟨r, hr, hstored'⟩ := (hsettled hframes).rooted w hw
    rw [hctx] at hroot hstored
    obtain rfl : r = root := Option.some.inj (hr.symm.trans hroot)
    rw [Stored.unique v w hstored hstored']
    exact ⟨h.phase, hframes, hw⟩
  · rintro ⟨-, hframes, hroot⟩
    obtain ⟨r, hr, hstored⟩ := (hsettled hframes).rooted v hroot
    have hstack : jc.stack = [.DONE] := h.modes.trans (by rw [Config.modes, hframes])
    refine ⟨{ jc with stack := [] }, r, ?_, hr, hstored⟩
    simp only [List.foldlM_nil, pure_bind, JSON_parser_done, h.state, true_or, if_true, Parser.pop, hstack]

theorem Between.accepts_nil (h : Between setup jc c) : Accepts lib jc [] v ↔ c.Final v := by
  by_cases hphase : c.phase = .after
  · exact (h.pending hphase).accepts_nil
  · refine iff_of_false ?_ fun hfinal => hphase hfinal.1
    by_cases hgo : jc.state = .GO
    · have hstart : c.phase = .start := by
        have hstate := h.state.symm.trans hgo
        cases hp : c.phase <;> rw [hp] at hstate <;> first | rfl | cases hstate
      rintro ⟨jc', root, hdone, hroot, -⟩
      obtain ⟨hhead, hctx⟩ := done_ok hdone
      have hframes := frames_nil_of_done (h.modes ▸ hhead)
      rw [hctx, h.builds.unrooted hframes (h.wf.root_none (by simp [hstart]))] at hroot
      cases hroot
    · refine not_accepts_nil ?_ hgo
      rw [h.state]
      cases hp : c.phase <;> simp_all [Phase.state]

/-! What a byte leads to -/

theorem keyword_only {point : UInt8} {cls : Class} (hclass : char_class b = some cls) {w : Value Bytes D} {word rest : Bytes}
    {token : Token Bytes D} (hkeyword : cls = .LOW_N ∧ w = .null ∧ word = bytes ['u', 'l', 'l'] ∨
      cls = .LOW_T ∧ w = .bool true ∧ word = bytes ['r', 'u', 'e'] ∨
      cls = .LOW_F ∧ w = .bool false ∧ word = bytes ['a', 'l', 's', 'e'])
    (htoken : Spell lib point token (b :: rest)) : token = .SCALAR w ∧ rest = word := by
  obtain ⟨b', rest', cls', heq, hclass', hfirst⟩ := htoken.first
  obtain ⟨rfl, rfl⟩ := List.cons.inj heq
  obtain rfl : cls' = cls := Option.some.inj (hclass'.symm.trans hclass)
  generalize hspelling : b :: rest = spelling at htoken
  cases htoken with
  | INTEGER => rcases hkeyword with ⟨rfl, -⟩ | ⟨rfl, -⟩ | ⟨rfl, -⟩ <;> rcases hfirst with h | h | h <;> cases h
  | DOUBLE => rcases hkeyword with ⟨rfl, -⟩ | ⟨rfl, -⟩ | ⟨rfl, -⟩ <;> rcases hfirst with h | h | h <;> cases h
  | _ =>
    obtain rfl := hfirst
    rcases hkeyword with ⟨h, rfl, rfl⟩ | ⟨h, rfl, rfl⟩ | ⟨h, rfl, rfl⟩ <;> cases h <;>
      exact ⟨rfl, (List.cons.inj hspelling).2⟩

/-- The states of the parser within each of the keywords. -/
theorem chained_keywords :
    Chained .N1 [(0x75, .N2), (0x6C, .N3), (0x6C, .OK)] ∧ Chained .T1 [(0x72, .T2), (0x75, .T3), (0x65, .OK)] ∧
      Chained .F1 [(0x61, .F2), (0x6C, .F3), (0x73, .F4), (0x65, .OK)] := by
  have hleads : ∀ state x next_state, (List.range 256).all (fun n => leads state x next_state (UInt8.ofNat n)) = true →
      ∀ b, leads state x next_state b = true := fun state x next_state hall => forall_byte hall
  refine ⟨⟨⟨by decide, hleads _ _ _ ?_⟩, ⟨by decide, hleads _ _ _ ?_⟩, ⟨by decide, hleads _ _ _ ?_⟩, trivial⟩,
    ⟨⟨by decide, hleads _ _ _ ?_⟩, ⟨by decide, hleads _ _ _ ?_⟩, ⟨by decide, hleads _ _ _ ?_⟩, trivial⟩,
    ⟨⟨by decide, hleads _ _ _ ?_⟩, ⟨by decide, hleads _ _ _ ?_⟩, ⟨by decide, hleads _ _ _ ?_⟩, ⟨by decide, hleads _ _ _ ?_⟩, trivial⟩⟩ <;>
    decide +kernel

/-- The first byte of a keyword. -/
theorem Between.accepts_word (h : Between setup jc c) (hreads : Reads lib setup c v n) {cls : Class}
    (hclass : char_class b = some cls) (hcls : cls = .LOW_N ∨ cls = .LOW_T ∨ cls = .LOW_F) (hle : text.length ≤ n) :
    Accepts lib jc (b :: text) v ↔ Lang lib setup.point setup.limit c (b :: text) v := by
  have hcell : ∀ action, (cell .VA cls = .act action ∧ cell .AR cls = .act action) → cell jc.state cls = .act action := by
    rintro action ⟨hVA, hAR⟩
    rw [h.state]
    rcases hreads.phase with hphase | hphase <;> rw [hphase] <;> assumption
  have hnone : assert ((jc.pushed [b]).type = .NONE) = .ok () := assert_true (decide_eq_true h.type)
  obtain ⟨hN, hT, hF⟩ := chained_keywords
  have hbyte := byte_of_class b
  rw [hclass] at hbyte
  rcases hcls with rfl | rfl | rfl
  · have hchar : JSON_parser_char lib jc b = .ok { jc.pushed [b] with type := .NULL, state := .N1 } := by
      rw [char_act h.toQuiet hclass (.inr (by simp)) (hcell .NU (by decide))]
      simp only [Parser.perform, hnone, ok_bind]
      rfl
    refine h.accepts_keyword hreads.comments hreads.later hle hreads.phase hchar (by simp) hN rfl
      (fun jc htype => by simp only [Parser.scalar, htype]) rfl ?_ fun token rest htoken => keyword_only hclass (.inl ⟨rfl, rfl, rfl⟩) htoken
    obtain rfl := hbyte
    exact .NULL
  · have hchar : JSON_parser_char lib jc b = .ok { jc.pushed [b] with type := .TRUE, state := .T1 } := by
      rw [char_act h.toQuiet hclass (.inr (by simp)) (hcell .TR (by decide))]
      simp only [Parser.perform, hnone, ok_bind]
      rfl
    refine h.accepts_keyword hreads.comments hreads.later hle hreads.phase hchar (by simp) hT rfl
      (fun jc htype => by simp only [Parser.scalar, htype]) rfl ?_ fun token rest htoken => keyword_only hclass (.inr (.inl ⟨rfl, rfl, rfl⟩)) htoken
    obtain rfl := hbyte
    exact .TRUE
  · have hchar : JSON_parser_char lib jc b = .ok { jc.pushed [b] with type := .FALSE, state := .F1 } := by
      rw [char_act h.toQuiet hclass (.inr (by simp)) (hcell .FA (by decide))]
      simp only [Parser.perform, hnone, ok_bind]
      rfl
    refine h.accepts_keyword hreads.comments hreads.later hle hreads.phase hchar (by simp) hF rfl
      (fun jc htype => by simp only [Parser.scalar, htype]) rfl ?_ fun token rest htoken => keyword_only hclass (.inr (.inr ⟨rfl, rfl, rfl⟩)) htoken
    obtain rfl := hbyte
    exact .FALSE

/-- The quote before a string. -/
theorem Between.accepts_string (h : Between setup jc c) (hcomments : setup.comments = false) (hlater : ReadsRight lib setup v n)
    (hphase : c.phase = .value ∨ c.phase = .element ∨ c.phase = .member ∨ c.phase = .key) (hle : text.length ≤ n) :
    Accepts lib jc (quote :: text) v ↔ Lang lib setup.point setup.limit c (quote :: text) v := by
  have hcell : cell jc.state .QUOTE = .act .SB := by
    rw [h.state]
    rcases hphase with hp | hp | hp | hp <;> rw [hp] <;> rfl
  have hnone : assert ((jc.pushed [quote]).type = .NONE) = .ok () := assert_true (decide_eq_true h.type)
  have hchar : JSON_parser_char lib jc quote = .ok { jc.pushed [quote] with parse_buffer := [], type := .STRING, state := .ST } := by
    rw [char_act h.toQuiet char_class_quote (.inr (by simp)) hcell]
    simp only [Parser.perform, hnone, ok_bind]
    rfl
  have hin : InString setup { jc.pushed [quote] with parse_buffer := [], type := .STRING, state := .ST } c [] 0 :=
    ⟨⟨h.wf, h.builds, h.modes, h.fixed⟩, ⟨h.escaped, h.comment,
      Nat.lt_of_le_of_lt (Nat.zero_le _) (pushed_quiet h.toQuiet [quote] (Nat.le_refl _)).room⟩, rfl, h.surrogate, rfl⟩
  rw [accepts_cons hchar, InString.accepts_iff hcomments hlater hphase text (Nat.le_succ_of_le hle) _ [] hin rfl,
    lang_cons (by decide)]
  constructor
  · rintro ⟨body, str, rest, c', rfl, hchars, hstep, hlang⟩
    exact ⟨_, _, rest, c', by simp, .STRING hchars, by simpa using hstep, hlang⟩
  · rintro ⟨token, spelling, rest, c', htext, htoken, hstep, hlang⟩
    obtain ⟨b', s, cls, rfl, hclass, hfirst⟩ := htoken.first
    obtain rfl : cls = .QUOTE := by
      obtain ⟨rfl, -⟩ := List.cons.inj htext
      exact (Option.some.inj (char_class_quote.symm.trans hclass)).symm
    generalize b' :: s = spelling at htoken htext
    cases htoken with
    | INTEGER => rcases hfirst with h | h | h <;> cases h
    | DOUBLE => rcases hfirst with h | h | h <;> cases h
    | STRING hchars =>
      obtain ⟨-, rfl⟩ := List.cons.inj htext
      exact ⟨_, _, rest, c', by simp, hchars, by simpa using hstep, hlang⟩
    | _ => cases hfirst

/-- A byte that the parser has to act on. -/
theorem Between.accepts_act (h : Between setup jc c) (hlater : ReadsRight lib setup v n) (hle : text.length ≤ n) {cls : Class}
    {action : Action} {token : Token Bytes D} (hclass : char_class b = some cls) (hpunct : punctuator cls = some token)
    (hcell : cell c.phase.state cls = .act action)
    (houtcome : Outcome setup ((jc.pushed [b]).perform lib action) (c.step setup.limit token)) :
    Accepts lib jc (b :: text) v ↔ Lang lib setup.point setup.limit c (b :: text) v := by
  have hkept : cls ≠ .SPACE ∧ cls ≠ .WHITE := by
    constructor <;> rintro rfl <;> cases hpunct
  refine accepts_outcome hlater hle hclass hpunct ?_
  rwa [char_act h.toQuiet hclass (.inr hkept) (by rw [h.state]; exact hcell)]

/-- One byte, by its class and by what can come next. -/
theorem Between.accepts_cons (h : Between setup jc c) (hcomments : setup.comments = false) (hlater : ReadsRight lib setup v n)
    (hle : text.length ≤ n) : Accepts lib jc (b :: text) v ↔ Lang lib setup.point setup.limit c (b :: text) v := by
  by_cases hafter : c.phase = .after
  · have hpending := @Between.pending _ lib _ _ _ h hafter
    refine hpending.toSettles.accepts_after hcomments hafter (.inl h.type) ?_ hlater hle
    rw [hpending.state]
    unfold ends
    split <;> simp
  cases hclass : char_class b with
  | none => exact accepts_none hclass
  | some cls =>
    have hbyte := byte_of_class b
    rw [hclass] at hbyte
    have hreject : (cls ≠ .SPACE ∧ cls ≠ .WHITE) → (cell c.phase.state cls = .error ∨ cell c.phase.state cls = .act .CB) →
        (Accepts lib jc (b :: text) v ↔ Lang lib setup.point setup.limit c (b :: text) v) := by
      intro hkept hcell
      refine accepts_rejected h.toQuiet (h.fixed.comments_eq.trans hcomments) hclass ?_ (by rw [h.state]; exact hcell) hcell
      rw [← Bool.not_eq_true, is_blank_iff hclass]
      exact not_or.mpr hkept
    have hblank : (cls = .SPACE ∨ cls = .WHITE) →
        (Accepts lib jc (b :: text) v ↔ Lang lib setup.point setup.limit c (b :: text) v) := by
      intro hcls
      obtain ⟨jc', hok, hbetween⟩ := @Between.blank _ lib _ _ _ _ _ h hclass hcls
      rw [cson.accepts_cons hok, lang_blank ((is_blank_iff hclass).mpr hcls)]
      exact (hlater text hle).1 jc' c hbetween
    have hreads : c.phase = .value ∨ c.phase = .element → Reads lib setup c v n := fun hphase => ⟨hcomments, hlater, hphase⟩
    cases cls with
    | SPACE => exact hblank (.inl rfl)
    | WHITE => exact hblank (.inr rfl)
    | LCURB =>
      by_cases hphase : c.phase = .start ∨ c.phase = .value ∨ c.phase = .element
      · refine @Between.accepts_act _ lib _ _ _ _ _ _ _ h hlater hle _ .OA _ hclass rfl ?_ (h.open hphase false b)
        rcases hphase with hp | hp | hp <;> rw [hp] <;> rfl
      · refine hreject (by simp) (.inl ?_)
        cases hp : c.phase <;> simp_all <;> rfl
    | LSQRB =>
      by_cases hphase : c.phase = .start ∨ c.phase = .value ∨ c.phase = .element
      · refine @Between.accepts_act _ lib _ _ _ _ _ _ _ h hlater hle _ .AA _ hclass rfl ?_ (h.open hphase true b)
        rcases hphase with hp | hp | hp <;> rw [hp] <;> rfl
      · refine hreject (by simp) (.inl ?_)
        cases hp : c.phase <;> simp_all <;> rfl
    | RCURB =>
      by_cases hphase : c.phase = .member
      · exact @Between.accepts_act _ lib _ _ _ _ _ _ _ h hlater hle _ .EO _ hclass rfl (by rw [hphase]; rfl) (h.close_empty hphase b)
      · refine hreject (by simp) (.inl ?_)
        cases hp : c.phase <;> simp_all <;> rfl
    | RSQRB =>
      by_cases hphase : c.phase = .element
      · exact @Between.accepts_act _ lib _ _ _ _ _ _ _ h hlater hle _ .AE _ hclass rfl (by rw [hphase]; rfl) (h.settles.close true (.inr ⟨rfl, hphase⟩) b)
      · refine hreject (by simp) (.inl ?_)
        cases hp : c.phase <;> simp_all <;> rfl
    | COLON =>
      by_cases hphase : c.phase = .colon
      · exact @Between.accepts_act _ lib _ _ _ _ _ _ _ h hlater hle _ .CL _ hclass rfl (by rw [hphase]; rfl) (h.colon hphase b)
      · refine hreject (by simp) (.inl ?_)
        cases hp : c.phase <;> simp_all <;> rfl
    | QUOTE =>
      by_cases hphase : c.phase = .value ∨ c.phase = .element ∨ c.phase = .member ∨ c.phase = .key
      · obtain rfl := hbyte
        exact h.accepts_string hcomments hlater hphase hle
      · refine hreject (by simp) (.inl ?_)
        cases hp : c.phase <;> simp_all <;> rfl
    | MINUS =>
      by_cases hphase : c.phase = .value ∨ c.phase = .element
      · exact h.accepts_number (hreads hphase) hclass (.inl rfl) hle
      · refine hreject (by simp) (.inl ?_)
        cases hp : c.phase <;> simp_all <;> rfl
    | ZERO =>
      by_cases hphase : c.phase = .value ∨ c.phase = .element
      · exact h.accepts_number (hreads hphase) hclass (.inr (.inl rfl)) hle
      · refine hreject (by simp) (.inl ?_)
        cases hp : c.phase <;> simp_all <;> rfl
    | DIGIT =>
      by_cases hphase : c.phase = .value ∨ c.phase = .element
      · exact h.accepts_number (hreads hphase) hclass (.inr (.inr rfl)) hle
      · refine hreject (by simp) (.inl ?_)
        cases hp : c.phase <;> simp_all <;> rfl
    | LOW_N =>
      by_cases hphase : c.phase = .value ∨ c.phase = .element
      · exact h.accepts_word (hreads hphase) hclass (.inl rfl) hle
      · refine hreject (by simp) (.inl ?_)
        cases hp : c.phase <;> simp_all <;> rfl
    | LOW_T =>
      by_cases hphase : c.phase = .value ∨ c.phase = .element
      · exact h.accepts_word (hreads hphase) hclass (.inr (.inl rfl)) hle
      · refine hreject (by simp) (.inl ?_)
        cases hp : c.phase <;> simp_all <;> rfl
    | LOW_F =>
      by_cases hphase : c.phase = .value ∨ c.phase = .element
      · exact h.accepts_word (hreads hphase) hclass (.inr (.inr rfl)) hle
      · refine hreject (by simp) (.inl ?_)
        cases hp : c.phase <;> simp_all <;> rfl
    | _ =>
      refine hreject (by simp) ?_
      cases hp : c.phase with
      | after => exact absurd hp hafter
      | _ => decide

/-- Every text is read right. -/
theorem reads_right (hcomments : setup.comments = false) (n : ℕ) : ReadsRight lib setup v n := by
  induction n with
  | zero =>
    intro text hle
    obtain rfl : text = [] := List.length_eq_zero_iff.mp (Nat.le_zero.mp hle)
    exact ⟨fun jc c h => h.accepts_nil.trans lang_nil.symm, fun jc c h => h.accepts_nil.trans lang_nil.symm⟩
  | succ n ih =>
    intro text hle
    match text with
    | [] => exact ⟨fun jc c h => h.accepts_nil.trans lang_nil.symm, fun jc c h => h.accepts_nil.trans lang_nil.symm⟩
    | b :: text =>
      have hshort : text.length ≤ n := Nat.le_of_succ_le_succ hle
      refine ⟨fun jc c h => h.accepts_cons hcomments ih hshort, fun jc c h => ?_⟩
      refine h.toSettles.accepts_after hcomments h.phase h.inner ?_ ih hshort
      rw [h.state]
      unfold ends
      split <;> simp

end Accepts

/-! The texts that are parsed -/

section Parse

variable {D : Type} (lib : Doubles D) (decimal_point : UInt8)

/-- How deep containers can be nested: as deep as the options say, but from the size of the parser's own stack on one
less. -/
def ParseOpt.nesting (opt : ParseOpt) : ℕ :=
  let depth := if opt.maxDepth = 0 then 1 else opt.maxDepth.toNat
  if depth < JSON_PARSER_STACK_SIZE then depth else depth - 1

/-- The setup of the parser that the options ask for. -/
def ParseOpt.setup (opt : ParseOpt) (decimal_point : UInt8) : Setup where
  capacity := if opt.maxDepth = 0 then 1 else opt.maxDepth.toNat
  size := max JSON_PARSER_STACK_SIZE (if opt.maxDepth = 0 then 1 else opt.maxDepth.toNat)
  size_pos := Nat.lt_of_lt_of_le (by decide) (Nat.le_max_left _ _)
  point := decimal_point
  comments := opt.allowComments

theorem limit_setup (opt : ParseOpt) : (opt.setup decimal_point).limit = opt.nesting := by
  simp only [Setup.limit, ParseOpt.setup, ParseOpt.nesting, JSON_PARSER_STACK_SIZE]
  split_ifs <;> omega

theorem builds_initial : Builds ({ heap := [], root := none, node := none, stack := [], ckey := none } : Builder D) Config.initial :=
  ⟨trivial, by simp [Config.initial], by simp [Config.initial], fun _ _ => rfl, by simp [Config.initial], rfl⟩

theorem between_new (opt : ParseOpt) :
    Between (opt.setup decimal_point) (JSON_parser_new decimal_point opt : Parser D) Config.initial := by
  refine ⟨⟨Config.wellFormed_initial _, builds_initial, rfl, ⟨rfl, rfl, ?_, rfl, rfl⟩⟩, ⟨rfl, rfl, ?_⟩, rfl, rfl, rfl, rfl⟩
  · simp only [JSON_parser_new, ParseOpt.setup, JSON_PARSER_STACK_SIZE]
    split_ifs <;> omega
  · show 0 < JSON_PARSER_PARSE_BUFFER_SIZE
    decide

/-- What a new parser accepts. -/
theorem Between.accepts_initial {lib : Doubles D} {setup : Setup} {jc : Parser D} (h : Between setup jc Config.initial)
    (hcomments : setup.comments = false) {src : Bytes} {v : Value Bytes D} :
    Accepts lib jc src v ↔ v.is_container ∧ v.nesting ≤ setup.limit ∧ Spells lib setup.point v.tokens src := by
  rw [((reads_right hcomments src.length) src (Nat.le_refl _)).1 jc Config.initial h]
  constructor
  · rintro ⟨tokens, c', hspells, hrun⟩
    obtain ⟨rfl, hcontainer, hnesting⟩ := run_initial_iff.mp ⟨c', hrun⟩
    exact ⟨hcontainer, hnesting, hspells⟩
  · rintro ⟨hcontainer, hnesting, hspells⟩
    obtain ⟨c', hrun⟩ := run_initial_iff.mpr ⟨rfl, hcontainer, hnesting⟩
    exact ⟨v.tokens, c', hspells, hrun⟩

theorem parsed_iff_accepts (opt : ParseOpt) (src : Bytes) (v : Value Bytes D) :
    (∃ heap root, cson_parse lib decimal_point opt src = .value heap root ∧ Stored heap heap.length root v) ↔
      Accepts lib (JSON_parser_new decimal_point opt) src v := by
  unfold cson_parse Accepts
  cases src.foldlM (JSON_parser_char lib) (JSON_parser_new decimal_point opt) >>= JSON_parser_done with
  | error stop => cases stop <;> simp [stopped]
  | ok jc => cases hroot : jc.ctx.root <;> simp [hroot]

/-- Without comments, a text is parsed to a value exactly if it spells the value out, if the value is an array or
an object, and if its containers are not nested too deep. -/
theorem cson_parse_iff (opt : ParseOpt) (hcomments : opt.allowComments = false) (src : Bytes) (v : Value Bytes D) :
    (∃ heap root, cson_parse lib decimal_point opt src = .value heap root ∧ Stored heap heap.length root v) ↔
      v.is_container ∧ v.nesting ≤ opt.nesting ∧ Spells lib decimal_point v.tokens src := by
  rw [parsed_iff_accepts, (between_new decimal_point opt).accepts_initial hcomments, limit_setup]
  rfl

/-- A library that knows no floating point numbers. -/
def no_doubles : Doubles Unit where
  sprintf := fun _ => []
  strtod := fun _ => ()
  zero := ()
  is_zero := fun _ => true
  strtod_append := fun _ _ _ => rfl

/-- The text `{"a": [true,-20]}`. -/
theorem cson_parse_iff_members : ∃ heap root, cson_parse no_doubles 0x2E cson_parse_opt_empty
    (bytes ['{', '"', 'a', '"', ':', ' ', '[', 't', 'r', 'u', 'e', ',', '-', '2', '0', ']', '}']) = .value heap root ∧
      Stored heap heap.length root (.object [([0x61], .array [.bool true, .integer (-20)])]) := by
  refine (cson_parse_iff no_doubles 0x2E cson_parse_opt_empty rfl _ _).mpr ⟨rfl, by decide, ?_⟩
  have hkey : Chars [0x61] [0x61] := .plain (by decide) .nil
  have hint : IntPart [0x32, 0x30] := .digits rfl (by decide) (List.forall_mem_singleton.mpr rfl)
  exact .token .LCURB <| .token (.STRING hkey) <| .token .COLON <| .blank (by decide) <| .token .LSQRB <| .token .TRUE <|
    .token .COMMA <| .token (.INTEGER (.inr rfl) hint) <| .token .RSQRB <| .token .RCURB .nil

end Parse

end cson
