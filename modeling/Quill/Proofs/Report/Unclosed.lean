import Quill.Proofs.Report.Braces
import Quill.Proofs.Report.Commitment

/-!
# Blocks that are not closed

Where a text ends in the block of a loop, reading fails at the end: the innermost block wants to be
closed there, and the loops around it fail with it. The report finds nothing at the end of the text,
and of the braces that are still open there the innermost one is that of the same block. So it says
on which line the block begins that is to be closed.

## Main definitions

* `LeavesOpen ts` — the tokens `ts` are statements and openings of loops, up to the last brace.
* `Cursor.OpensLoop c brace body` — at `c` stands a loop up to its brace, and `body` is the place
  behind it.
-/

namespace Quill

open Text Quill.Tree

/-- The tokens in front of the brace of the last loop that is not closed: complete statements, then
this loop up to its brace, or one around it and behind its brace the same again. -/
inductive LeavesOpen : List String → Prop
  | innermost {ss : List Tree} {test : Tree} {ts us : List String}
    (hss : Derives (.statements ss) ts) (htest : Derives (.expression topLevel test) us) :
    LeavesOpen (ts ++ "while" :: us)
  | around {ss : List Tree} {test : Tree} {ts us vs : List String}
    (hss : Derives (.statements ss) ts) (htest : Derives (.expression topLevel test) us)
    (h : LeavesOpen vs) : LeavesOpen (ts ++ "while" :: (us ++ "\x7b" :: vs))

namespace Cursor

variable {filename : String} {c d brace body : Cursor}

/-- A loop stands at the place up to its opening brace: its keyword, its test, and the brace. The
last place is behind the brace. -/
inductive OpensLoop (filename : String) (c : Cursor) : Cursor → Cursor → Prop
  | loop {c₁ c₂ body : Cursor} {test : Tree} (hwhile : c.skip.keyword? "while" = some c₁)
    (htest : readExpression filename c₁ = .ok (test, c₂)) (hopen : c₂.symbol? "\x7b" = some body) :
    OpensLoop filename c c₂.skip body

/-! ## Tokens of loops that are not closed -/

/-- What is looked for behind complete statements is looked for in front of them. -/
theorem exists_behind_statements (filename : String) {ss : List Tree} {ts rest : List String}
    (h : Derives (.statements ss) ts) (hc : c.Spells (ts ++ rest)) :
    ∃ d, d.Spells rest ∧ (∀ e, Visits filename d e → Visits filename c e) ∧
      ∀ e, RunsOut filename d e → RunsOut filename c e := by
  induction ss generalizing ts c with
  | nil =>
    cases h
    exact ⟨c, hc, fun _ h => h, fun _ h => h⟩
  | cons s ss ih =>
    cases h with
    | statements hs hss =>
      rw [List.append_assoc] at hc
      obtain ⟨s', b, hread, -, hb, -⟩ := hs.isRead filename _ c _ (Nat.lt_succ_self _) hc
      obtain ⟨d, hd, hvisits, hrunsOut⟩ := ih hss hb
      exact ⟨d, hd, fun e he => .behind hread (hvisits e he),
        fun e he => .behind hread (hrunsOut e he)⟩

/-- The tokens of a loop up to its brace open it. -/
theorem exists_opensLoop (filename : String) {test : Tree} {ts rest : List String}
    (h : Derives (.expression topLevel test) ts)
    (hc : c.Spells ("while" :: (ts ++ "\x7b" :: rest))) :
    ∃ brace body, c.OpensLoop filename brace body ∧ body.Spells rest := by
  obtain ⟨c₁, hwhile, hc₁⟩ := hc
  obtain ⟨test', c₂, body, htest, hopen, -, hbody, -⟩ :=
    (h.isRead filename).readExpression hc₁ (by decide)
  exact ⟨_, body, .loop hwhile.keyword?_self htest hopen, hbody⟩

/-- Behind the brace of a loop a statement is looked for. -/
theorem OpensLoop.visits (h : c.OpensLoop filename brace body) (hd : Visits filename body d) :
    Visits filename c d := by
  cases h with
  | loop hwhile htest hopen => exact .inside hwhile htest hopen hd

/-- Where tokens that leave a loop open stand apart, with complete statements behind them up to the
end, reading comes to the innermost loop, whose block is made of these statements, and behind its
brace to the end. -/
theorem exists_visits_of_leavesOpen {ts us : List String} {ss : List Tree}
    (h : LeavesOpen ts) (hss : Derives (.statements ss) us) (filename : String)
    (hc : c.Spells (ts ++ "\x7b" :: us)) :
    ∃ loop brace body d, c.Visits filename loop ∧ loop.OpensLoop filename brace body ∧
      body.Spells us ∧ body.RunsOut filename d ∧ d.skip.ahead = [] := by
  induction h generalizing c with
  | innermost hbefore htest =>
    rw [List.append_assoc] at hc
    obtain ⟨loop, hloop, hvisits, -⟩ := exists_behind_statements filename hbefore hc
    obtain ⟨brace, body, hopens, hbody⟩ := exists_opensLoop filename htest hloop
    obtain ⟨d, hd, -, hrunsOut⟩ :=
      exists_behind_statements filename hss (by rwa [List.append_nil] : body.Spells (us ++ []))
    refine ⟨loop, brace, body, d, hvisits _ (.here _), hopens, hbody, hrunsOut d (.stop ?_), hd⟩
    intro s e hnext
    rw [nextStatement_of_end hd] at hnext
    cases hnext
  | around hbefore htest _ ih =>
    simp only [List.append_assoc, List.cons_append] at hc
    obtain ⟨outer, houter, hvisits, -⟩ := exists_behind_statements filename hbefore hc
    obtain ⟨brace, body, hopens, hbody⟩ := exists_opensLoop filename htest houter
    obtain ⟨loop, brace', body', d, hinner, h⟩ := ih hbody
    exact ⟨loop, brace', body', d, hvisits _ (hopens.visits hinner), h⟩

/-! ## Failure at the end -/

/-- A block that is not closed at the end of the text fails there. -/
theorem OpensLoop.readStatements_eq_error (h : c.OpensLoop filename brace body) {ss : List Tree}
    (hbody : readStatements filename body = .ok (ss, d)) (hend : d.skip.ahead = []) :
    readStatements filename c = .error ⟨.symbol "\x7d", d.skip⟩ := by
  have hclose : expectSymbol "\x7d" d = .error ⟨.symbol "\x7d", d.skip⟩ := by
    have hnone : d.symbol? "\x7d" = none := symbol?_eq_none_iff.2 (by rw [hend]; decide)
    unfold expectSymbol
    rw [hnone]
  cases h with
  | loop hwhile htest hopen =>
    refine readStatements_of_error ?_
    rw [nextStatement_block hwhile htest hopen, hbody, ok_bind]
    simp only [hclose]
    rfl

/-- What fails where a statement is looked for fails for all that is read. -/
theorem Visits.readStatements_eq_error (h : Visits filename c d) {f : Failure}
    (hd : readStatements filename d = .error f) : readStatements filename c = .error f := by
  induction h with
  | here _ => exact hd
  | behind hs _ ih =>
    rw [readStatements_of_some hs, ih hd]
    rfl
  | inside hwhile htest hopen _ ih =>
    refine readStatements_of_error ?_
    rw [nextStatement_block hwhile htest hopen, ih hd]
    rfl

/-! ## Places in the text -/

theorem leadsTo_of_nextStatement {s : Tree} (hs : nextStatement filename c = .ok (some s, d)) :
    c.LeadsTo d := by
  have hreading := (isStatementReader_nextStatement filename).follows c
  rw [hs] at hreading
  exact hreading.leadsTo

/-- The brace stands behind the place, and the block behind the brace. -/
theorem OpensLoop.leadsTo (h : c.OpensLoop filename brace body) :
    c.LeadsTo brace ∧ brace.Takes ['\x7b'] body := by
  cases h with
  | @loop c₁ c₂ body test hwhile htest hopen =>
    have hreading := follows_readExpression filename c₁
    rw [htest] at hreading
    have hleads := (leadsTo_of_keyword? hwhile).trans hreading.leadsTo
    exact ⟨hleads.trans c₂.leadsTo_skip, symbol?_eq_some_iff.1 hopen⟩

/-- Reading goes forward. -/
theorem Visits.leadsTo (h : Visits filename c d) : c.LeadsTo d := by
  induction h with
  | here c => exact .refl c
  | behind hs _ ih => exact (leadsTo_of_nextStatement hs).trans ih
  | inside hwhile htest hopen _ ih =>
    obtain ⟨hbrace, hbody⟩ := (OpensLoop.loop hwhile htest hopen).leadsTo
    exact (hbrace.trans hbody.leadsTo).trans ih

/-! ## Open braces -/

/-- A complete statement closes the braces that it opens. -/
theorem openLines_of_nextStatement {s : Tree} (hs : nextStatement filename c = .ok (some s, d))
    (hc : c.IsFresh) : d.IsFresh ∧ ∀ stack, c.openLines stack = d.openLines stack := by
  obtain ⟨hfresh, ts, hts, hspan⟩ := soundStatement_readStatement filename _ c s d hc hs
  exact ⟨hfresh, fun stack => hts.closes c d stack hspan⟩

/-- A loop opens its brace. -/
theorem OpensLoop.openLines_eq (h : c.OpensLoop filename brace body) :
    body.IsFresh ∧ ∀ stack, c.openLines stack = body.openLines (brace.line :: stack) := by
  cases h with
  | @loop c₁ c₂ body test hwhile htest hopen =>
    obtain ⟨ts, hts, hspan⟩ := sound_readExpression filename _ _ _ (isFresh_of_keyword? hwhile)
      htest (noDollar_of_punctuation (by decide) hopen)
    have hkeyword : c.Finds "while" c₁ := .keyword (by decide) hwhile
    have hbrace : c₂.Finds "\x7b" body := .punctuation (by decide) hopen
    refine ⟨isFresh_of_punctuation (by decide) hopen, fun stack => ?_⟩
    rw [hkeyword.openLines_eq (by decide), hts.closes c₁ c₂ stack hspan, hbrace.openLines_open]

/-- Where a statement is looked for, the braces of the blocks around it are open. -/
theorem Visits.openLines_eq (h : Visits filename c d) (hc : c.IsFresh) :
    d.IsFresh ∧ ∃ lines, ∀ stack, c.openLines stack = d.openLines (lines ++ stack) := by
  induction h with
  | here c => exact ⟨hc, [], fun _ => rfl⟩
  | behind hs _ ih =>
    obtain ⟨hfresh, hstatement⟩ := openLines_of_nextStatement hs hc
    obtain ⟨hd, lines, hlines⟩ := ih hfresh
    exact ⟨hd, lines, fun stack => by rw [hstatement, hlines]⟩
  | @inside c c₁ c₂ c₃ d test hwhile htest hopen _ ih =>
    obtain ⟨hfresh, hloop⟩ := (OpensLoop.loop hwhile htest hopen).openLines_eq
    obtain ⟨hd, lines, hlines⟩ := ih hfresh
    refine ⟨hd, lines ++ [c₂.skip.line], fun stack => ?_⟩
    rw [hloop, hlines, List.append_assoc, List.singleton_append]

/-- Complete statements leave the same blocks open. -/
theorem RunsOut.openLines_eq (h : RunsOut filename c d) (hc : c.IsFresh) (stack : List Nat) :
    c.openLines stack = d.openLines stack := by
  induction h with
  | stop _ => rfl
  | behind hs _ ih =>
    obtain ⟨hfresh, hstatement⟩ := openLines_of_nextStatement hs hc
    rw [hstatement, ih hfresh]

end Cursor

/-! ## Reports at the end of the text -/

/-- Where nothing is found in a block, the innermost one is suggested to be closed. -/
theorem Report.unclosedBlock_mem_suggestions {got : String} {expected : List String}
    {cs : List Char} {offset : Int} {block : Nat} (htoken : tokenOf? got = none)
    (hblock : (openBlocks cs offset).getLast? = some block) :
    .unclosedBlock (lineAt cs block) ∈ suggestions got expected cs offset := by
  refine List.mem_append_left _ (List.mem_append_left _ (List.mem_append_right _ ?_))
  rw [htoken, hblock]
  exact List.mem_cons_self

/-- At the end of a text nothing is found, and the innermost block that is open is suggested to be
closed. -/
theorem Failure.suggests_unclosed {f : Failure} {cs : List Char} {line : Nat} {lines : List Nat}
    (hend : cs.length ≤ f.cursor.offset)
    (hopen : (Cursor.start cs).openLines [] = line :: lines) :
    (f.toParseError cs).got = some "end of input" ∧
      (Report.Suggestion.unclosedBlock line).text ∈ (f.toParseError cs).suggestions := by
  have hgot : Report.describeToken cs f.cursor.offset = "end of input" := by
    rw [Report.describeToken, Report.tokenAt?, Int.toNat_natCast, List.drop_of_length_le hend]
    rfl
  have hall : upTo cs f.cursor.offset = cs := by
    rw [upTo_natCast, List.take_of_length_le hend]
  have hlines : (Report.openAfter [] (Report.braces 0 cs)).map (fun n : Nat => lineAt cs n) =
      line :: lines := by
    have hbraces := Report.map_braces [] cs
    rw [← hopen, Report.map_openAfter]
    exact congrArg (Report.openAfter []) hbraces
  obtain ⟨block, blocks, hblocks, hline, -⟩ := List.map_eq_cons_iff.1 hlines
  have hlast : (Report.openBlocks cs f.cursor.offset).getLast? = some block := by
    rw [Report.openBlocks, hall, Report.openBraces, List.getLast?_reverse, hblocks, List.head?_cons]
  have hmem : .unclosedBlock line ∈
      Report.suggestions "end of input" (Report.expectedTexts f.message) cs f.cursor.offset :=
    hline ▸ Report.unclosedBlock_mem_suggestions (by decide) hlast
  refine ⟨congrArg some hgot, ?_⟩
  rw [toParseError]
  simp only [hgot]
  exact List.mem_map_of_mem hmem

namespace Tree

variable {filename source : String} {c brace body d : Cursor}

/-- A text that ends in the block of a loop cannot be read: the report finds the end of the input,
and suggests to close this block, which begins on the line where its brace stands. -/
theorem read_of_unclosed
    (hvisits : (Cursor.start (expandTabs source.toList)).Visits filename c)
    (hloop : c.OpensLoop filename brace body) (hbody : body.RunsOut filename d)
    (hend : d.skip.ahead = []) :
    ∃ error, Tree.read filename source = .error (.parse error) ∧
      error.got = some "end of input" ∧
      (Report.Suggestion.unclosedBlock brace.line).text ∈ error.suggestions := by
  let cs := source.toList
  let f : Failure := ⟨.symbol "\x7d", d.skip⟩
  -- the innermost block fails, and with it all that is read
  have hread : ofProgram filename cs = .error f := by
    have hnone : ∀ k ∈ Report.statementKeywords, d.skip.keyword? k = none :=
      fun k hk => Cursor.keyword?_of_end hend (Report.statementKeywords_subset hk)
    obtain ⟨ss, hss⟩ := hbody.readStatements_eq_ok hnone
    rw [ofProgram, hvisits.readStatements_eq_error (hloop.readStatements_eq_error hss hend)]
    rfl
  have herror : Tree.read filename source = .error (.parse (f.toParseError cs)) := by
    rw [Tree.read, hread]
    rfl
  have hoffset : cs.length ≤ f.cursor.offset :=
    Cursor.length_le_offset (isSettled_of_ofProgram hread).1.text_eq hend
  -- its brace is the innermost that is open
  obtain ⟨hfresh, lines, hlines⟩ := hvisits.openLines_eq (.inl rfl)
  obtain ⟨hfresh', hopens⟩ := hloop.openLines_eq
  have hopen : (Cursor.start cs).openLines [] = brace.line :: lines := by
    rw [Cursor.openLines_of_expands (expands_expandTabs cs), hlines, hopens,
      hbody.openLines_eq hfresh', Cursor.openLines_of_end hend, List.append_nil]
  exact ⟨_, herror, f.suggests_unclosed hoffset hopen⟩

/-- The brace of a loop that is come to stands in the text as it was given, on the same line. -/
theorem exists_brace_of_opensLoop
    (hvisits : (Cursor.start (expandTabs source.toList)).Visits filename c)
    (hloop : c.OpensLoop filename brace body) :
    ∃ before after, source.toList = before ++ '\x7b' :: after ∧
      expandTabs before = brace.behind.reverse ∧ brace.line = before.count '\n' + 1 := by
  obtain ⟨hleads, htakes⟩ := hloop.leadsTo
  exact Cursor.exists_of_expandTabs (hvisits.leadsTo.trans hleads).text_eq htakes.head (by decide)

/-- Up to some place a text is made of complete statements and openings of loops; there one more
loop opens, behind its brace stand complete statements, and then the text ends but for blanks and
comments. It cannot be read: the report finds the end of the input, and suggests that this innermost
block is not closed, which begins on the line where its brace stands in the text as it was given. -/
theorem suggestions_of_unclosed
    (hvisits : (Cursor.start (expandTabs source.toList)).Visits filename c)
    (hloop : c.OpensLoop filename brace body) (hbody : body.RunsOut filename d)
    (hend : d.skip.ahead = []) :
    ∃ before after error, source.toList = before ++ '\x7b' :: after ∧
      expandTabs before = brace.behind.reverse ∧
      Tree.read filename source = .error (.parse error) ∧ error.got = some "end of input" ∧
      "The while block opened at line " ++ toString (before.count '\n' + 1) ++
        " is missing its closing '\x7d'" ∈ error.suggestions := by
  obtain ⟨before, after, hsplit, hbefore, hline⟩ := exists_brace_of_opensLoop hvisits hloop
  obtain ⟨error, herror, hgot, hsuggestion⟩ := read_of_unclosed hvisits hloop hbody hend
  rw [hline] at hsuggestion
  exact ⟨before, after, error, hsplit, hbefore, herror, hgot, hsuggestion⟩

/-- Two loops, the second one behind a tab, and a brace in a comment. -/
def unclosedLoops : String := "while 1 \x7b\n\twhile x \x7b\n x = 1; // \x7d"

theorem suggestions_unclosedLoops : ∃ c brace body d,
    (Cursor.start (expandTabs unclosedLoops.toList)).Visits "open" c ∧
      c.OpensLoop "open" brace body ∧ body.RunsOut "open" d ∧ d.skip.ahead = [] ∧
      ∃ error, Tree.read "open" unclosedLoops = .error (.parse error) ∧
        error.got = some "end of input" ∧
        "The while block opened at line 2 is missing its closing '\x7d'" ∈ error.suggestions := by
  let place (n : Nat) : Cursor := (Cursor.start (expandTabs unclosedLoops.toList)).advance n
  have hread {α : Type} {x : Except Failure (α × Cursor)} {d : Cursor}
      (h : x.toOption.map Prod.snd = some d) : ∃ a, x = .ok (a, d) := by
    obtain ⟨⟨a, d'⟩, hx, rfl⟩ := Option.map_eq_some_iff.1 h
    exact ⟨a, toOption_eq_some_iff.1 hx⟩
  obtain ⟨test, htest⟩ := hread (by decide +kernel :
    (Quill.readExpression "open" (place 5)).toOption.map Prod.snd = some (place 7))
  obtain ⟨test', htest'⟩ := hread (by decide +kernel :
    (Quill.readExpression "open" (place 23)).toOption.map Prod.snd = some (place 25))
  obtain ⟨⟨s?, d⟩, hs, hd⟩ := Option.map_eq_some_iff.1 (by decide +kernel :
    ((nextStatement "open" (place 27)).toOption.map fun r => (r.1.isSome, r.2)) =
      some (true, place 35))
  obtain ⟨hsome, rfl⟩ := Prod.mk.inj hd
  obtain ⟨s, rfl⟩ := Option.isSome_iff_exists.1 hsome
  have hvisits : (place 0).Visits "open" (place 9) :=
    .inside (by decide +kernel) htest (by decide +kernel) (.here _)
  have hloop : (place 9).OpensLoop "open" (place 25).skip (place 27) :=
    .loop (by decide +kernel) htest' (by decide +kernel)
  have hend : (place 35).skip.ahead = [] := by decide +kernel
  have hbody : (place 27).RunsOut "open" (place 35) := by
    refine .behind (toOption_eq_some_iff.1 hs) (.stop fun s d hnext => ?_)
    rw [nextStatement_of_end hend] at hnext
    cases hnext
  obtain ⟨before, after, error, -, hbefore, herror, hgot, hsuggestion⟩ :=
    suggestions_of_unclosed hvisits hloop hbody hend
  have hline : before.count '\n' = 1 := by
    have hbreaks := (expands_expandTabs before).countBreaks
    rw [hbefore] at hbreaks
    exact hbreaks.trans (by decide +kernel)
  rw [hline] at hsuggestion
  exact ⟨_, _, _, _, hvisits, hloop, hbody, hend, error, herror, hgot, hsuggestion⟩

/-- In tokens: a text spells tokens that leave a loop open, the brace of this loop, and complete
statements. It cannot be read, and the report suggests to close the block of these statements, in
front of which the brace stands. -/
theorem suggestions_of_leavesOpen {ts us : List String} {ss : List Tree} (hopen : LeavesOpen ts)
    (hss : Derives (.statements ss) us)
    (hsource : (Cursor.start (expandTabs source.toList)).Spells (ts ++ "\x7b" :: us)) :
    ∃ before after error, source.toList = before ++ '\x7b' :: after ∧
      (∃ block : Cursor, block.behind = '\x7b' :: (expandTabs before).reverse ∧
        block.Spells us) ∧
      Tree.read filename source = .error (.parse error) ∧ error.got = some "end of input" ∧
      (Report.Suggestion.unclosedBlock (before.count '\n' + 1)).text ∈ error.suggestions := by
  obtain ⟨c, brace, body, d, hvisits, hloop, hspells, hbody, hend⟩ :=
    Cursor.exists_visits_of_leavesOpen hopen hss filename hsource
  obtain ⟨before, after, hsplit, hbefore, hline⟩ := exists_brace_of_opensLoop hvisits hloop
  have hbehind : body.behind = '\x7b' :: (expandTabs before).reverse := by
    rw [hloop.leadsTo.2.behind, hbefore, List.reverse_reverse]
    rfl
  obtain ⟨error, herror, hgot, hsuggestion⟩ := read_of_unclosed hvisits hloop hbody hend
  rw [hline] at hsuggestion
  exact ⟨before, after, error, hsplit, ⟨body, hbehind, hspells⟩, herror, hgot, hsuggestion⟩

end Tree
end Quill
