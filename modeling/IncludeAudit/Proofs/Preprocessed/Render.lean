import IncludeAudit.Proofs.Preprocessed.Line
import IncludeAudit.Proofs.Preprocessed.Shape

/-! # Rendering a tree

A tree is rendered node by node: a marker tells where a directive or a macro definition stands, and
markers stand around what is in a file.  A tree that has the shape of nested files and whose nodes
can all be written (`WellFormed`) is read back from its rendering (`ofPreprocessed_render`).

The lines of a node add it to the innermost frame and leave everything else of a builder as it was,
except for the place in the text (`Adds`).  A directive that entered a file is left without one by
its own line; the line after it, with which the file starts, takes it out of its frame again, and it
comes back when the file ends (`foldl_feed_nested`).
-/
namespace IncludeAudit.Preprocessed

/-! ## Renderings -/

/-- The marker in front of a node. -/
def placeOf : Option Location → Line
  | some l => .marker l.line l.file false false
  | none => .marker 1 "<built-in>" false false

mutual

/-- The lines of a node. A line of program text follows a directive that entered no file. -/
def linesOf : Node → List Line
  | ⟨.unit _, _, children⟩ => linesOfAll children
  | ⟨.region file, _, children⟩ =>
    .marker 1 file.text true false :: linesOfAll children ++ [.marker 1 file.text false true]
  | ⟨.inclusion d, location?, children⟩ =>
    placeOf location? :: .inclusion d.keyword d.spelling d.angled ::
      (if d.file?.isNone then [.text] else []) ++ linesOfAll children
  | ⟨.define name, location?, children⟩ =>
    placeOf location? :: .define name :: linesOfAll children

/-- The lines of some nodes, one node after the other. -/
def linesOfAll : List Node → List Line
  | [] => []
  | n :: rest => linesOf n ++ linesOfAll rest

end

/-- The text of a tree, each line in its plain form. -/
def render (root : Node) : String := String.ofList (Text.unlines ((linesOf root).map Line.write))

/-- The plain forms of lines can hold what a node says. -/
structure IsWritable (n : Node) : Prop where
  line : ∀ l, n.location? = some l → l.line < (1 <<< 32) - 1
  name : ∀ name, n.kind = .define name → Line.IsIdentifier name
  spelling : ∀ d, n.kind = .inclusion d →
    '\n' ∉ d.spelling.toList ∧ (Line.delimiters d.angled).2 ∉ d.spelling.toList

/-- A tree of a translation unit that can be rendered. -/
structure WellFormed (mainFile : Path) (root : Node) : Prop where
  shaped : Shaped mainFile root
  writable : ∀ m : Node, m.Within root → IsWritable m

/-! ## Lines -/

/-- A marker in front of a first line can be written. -/
theorem writable_marker_one (file : String) (enters leaves : Bool) :
    (Line.marker 1 file enters leaves).Writable ∧ Line.marker 1 file enters leaves ≠ .blank :=
  ⟨show 1 < 1 <<< 32 by decide, nofun⟩

/-- So can the marker in front of a node, whose line has a smaller number still. -/
theorem writable_placeOf {location? : Option Location}
    (h : ∀ l, location? = some l → l.line < (1 <<< 32) - 1) :
    (placeOf location?).Writable ∧ placeOf location? ≠ .blank := by
  cases location? with
  | none => exact writable_marker_one ..
  | some l =>
    have hl := h l rfl
    exact ⟨show l.line < 1 <<< 32 by omega, nofun⟩

mutual

/-- Every line of a rendering can be written, and none is blank. -/
theorem writable_of_mem_linesOf : (n : Node) → (∀ m : Node, m.Within n → IsWritable m) →
    ∀ l ∈ linesOf n, l.Writable ∧ l ≠ .blank
  | ⟨kind, location?, children⟩, h => by
    have hn : IsWritable ⟨kind, location?, children⟩ := h _ .self
    have hchildren := writable_of_mem_linesOfAll children fun c hc m hm => h m (.child hc hm)
    intro l hl
    cases kind with
    | unit path => exact hchildren l hl
    | region file =>
      rcases List.mem_append.1 hl with hl | hl
      · rcases List.mem_cons.1 hl with rfl | hl
        · exact writable_marker_one ..
        · exact hchildren l hl
      · rw [List.mem_singleton.1 hl]
        exact writable_marker_one ..
    | inclusion d =>
      rcases List.mem_cons.1 hl with rfl | hl
      · exact writable_placeOf hn.line
      · rcases List.mem_cons.1 hl with rfl | hl
        · exact ⟨hn.spelling d rfl, nofun⟩
        · rcases List.mem_append.1 hl with hl | hl
          · split at hl
            · rw [List.mem_singleton.1 hl]
              exact ⟨trivial, nofun⟩
            · exact absurd hl List.not_mem_nil
          · exact hchildren l hl
    | define name =>
      rcases List.mem_cons.1 hl with rfl | hl
      · exact writable_placeOf hn.line
      · rcases List.mem_cons.1 hl with rfl | hl
        · exact ⟨hn.name name rfl, nofun⟩
        · exact hchildren l hl

/-- The same for some nodes; the recursion is that of `linesOf`. -/
theorem writable_of_mem_linesOfAll : (ns : List Node) →
    (∀ n ∈ ns, ∀ m : Node, m.Within n → IsWritable m) →
    ∀ l ∈ linesOfAll ns, l.Writable ∧ l ≠ .blank
  | [], _ => fun _ hl => absurd hl List.not_mem_nil
  | n :: ns, h => fun l hl => by
    rcases List.mem_append.1 hl with hl | hl
    · exact writable_of_mem_linesOf n (h n (List.mem_cons_self ..)) l hl
    · exact writable_of_mem_linesOfAll ns (fun m hm => h m (List.mem_cons_of_mem n hm)) l hl

end

/-- The lines of a rendering are the ones that were written. -/
theorem classify_lines_render {root : Node} (h : ∀ m : Node, m.Within root → IsWritable m) :
    (Text.lines (render root).toList).map Line.classify = linesOf root := by
  have hlines := writable_of_mem_linesOf root h
  have hfeed : ∀ cs ∈ (linesOf root).map Line.write, '\n' ∉ cs := by
    intro cs hcs
    obtain ⟨l, hl, rfl⟩ := List.mem_map.1 hcs
    exact Line.feed_not_mem_write (hlines l hl).1
  have hends : ∀ cs ∈ (linesOf root).map Line.write, Text.EndsVisibly cs := by
    intro cs hcs
    obtain ⟨l, hl, rfl⟩ := List.mem_map.1 hcs
    exact Line.endsVisibly_write (hlines l hl).1 (hlines l hl).2
  rw [render, String.toList_ofList, Text.lines_unlines hfeed hends, List.map_map]
  have hread : (linesOf root).map (Line.classify ∘ Line.write) = (linesOf root).map id :=
    List.map_congr_left fun l hl => Line.classify_write (hlines l hl).1
  rw [hread, List.map_id]

/-! ## What the lines of a node do -/

/-- Reading the lines `ls` adds the nodes `ns` to the innermost frame and changes nothing else but
the place in the text. -/
def Adds (ls : List Line) (ns : List Node) : Prop :=
  ∀ b : Builder, b.pending = false → ∃ file line, ls.foldl Builder.feed b =
    { b with
      top := { b.top with recent := ns.reverse ++ b.top.recent }, file := file, line := line }

theorem Adds.nil : Adds [] [] := fun b _ => ⟨b.file, b.line, rfl⟩

/-- Lines that add nodes may follow one another. -/
theorem Adds.append {ls ls' : List Line} {ns ns' : List Node} (h : Adds ls ns) (h' : Adds ls' ns') :
    Adds (ls ++ ls') (ns ++ ns') := by
  intro b hb
  obtain ⟨file, line, hls⟩ := h b hb
  obtain ⟨file', line', hls'⟩ := h' { b with
    top := { b.top with recent := ns.reverse ++ b.top.recent }, file := file, line := line } hb
  refine ⟨file', line', ?_⟩
  rw [List.foldl_append, hls, hls', List.reverse_append, List.append_assoc]

/-- The marker in front of a node changes the place and nothing else, and a node that is put in now
gets the location for which the marker stands. -/
theorem foldl_feed_placeOf (b : Builder) {location? : Option Location} (h : InFile location?) :
    ∃ file line, b.feed (placeOf location?) = { b with file := file, line := line } ∧
      (b.feed (placeOf location?)).location? = location? := by
  cases location? with
  | none =>
    have hpseudo : isPseudoFile "<built-in>" = true := by decide
    have hlocation : (if isPseudoFile "<built-in>" then none
        else some (Location.mk "<built-in>" 1)) = none := by
      rw [hpseudo]
      rfl
    exact ⟨_, _, rfl, hlocation⟩
  | some l =>
    have hlocation : (if isPseudoFile l.file then none else some l) = some l := by
      rw [h l rfl]
      rfl
    exact ⟨_, _, rfl, hlocation⟩

/-- The lines of a file put what the frame of the file becomes into the frame around it. -/
theorem foldl_feed_nested {ls : List Line} {items : List Node} (h : Adds ls items) {b : Builder}
    {file : Path} {opener? : Option Node} {around : Frame}
    (he : b.enter file =
      { b with top := ⟨.region file, [], opener?⟩, below := around :: b.below, pending := false }) :
    ∃ place line, (Line.marker 1 file.text true false :: ls ++
        [Line.marker 1 file.text false true]).foldl Builder.feed b =
      { b with
        top := around.push (Frame.close ⟨.region file, items.reverse, opener?⟩)
        pending := false
        file := place
        line := line } := by
  have hstart : b.feed (.marker 1 file.text true false) =
      { b.enter file with file := file.text, line := 1 } := rfl
  obtain ⟨place, line, hls⟩ := h
    { b with
      top := ⟨.region file, [], opener?⟩
      below := around :: b.below
      pending := false
      file := file.text
      line := 1 } rfl
  have hread : (Line.marker 1 file.text true false :: ls).foldl Builder.feed b =
      { b with
        top := ⟨.region file, items.reverse, opener?⟩
        below := around :: b.below
        pending := false
        file := place
        line := line } := by
    rw [List.foldl_cons, hstart, he, hls, List.append_nil]
  refine ⟨file.text, 1, ?_⟩
  rw [List.foldl_append, hread]
  rfl

/-- No directive waits at the start of these lines, so the file is entered without one and the
region goes into the frame around it. -/
theorem adds_region {ls : List Line} {items : List Node} (h : Adds ls items) (file : Path) :
    Adds (.marker 1 file.text true false :: ls ++ [.marker 1 file.text false true])
      [⟨.region file, none, items⟩] := by
  intro b hb
  obtain ⟨place, line, hls⟩ := foldl_feed_nested h (Builder.enter_of_not_pending hb file)
  refine ⟨place, line, ?_⟩
  rw [hls, hb, Frame.close, List.reverse_reverse]
  rfl

/-- The marker moves the builder to the place of the definition, where it gets its location. -/
theorem adds_define (name : String) {location? : Option Location} (hl : InFile location?) :
    Adds [placeOf location?, .define name] [⟨.define name, location?, []⟩] := by
  intro b hb
  obtain ⟨file, line, hplace, hlocation⟩ := foldl_feed_placeOf b hl
  refine ⟨file, line + 1, ?_⟩
  rw [List.foldl_cons, List.foldl_cons, List.foldl_nil, Builder.feed, hlocation, hplace, hb]
  rfl

section

variable (keyword : Keyword) (spelling : String) (angled : Bool) {location? : Option Location}

/-- The lines of a directive leave it waiting for its file. -/
theorem foldl_feed_inclusion (b : Builder) (hl : InFile location?) : ∃ file line,
    [placeOf location?, .inclusion keyword spelling angled].foldl Builder.feed b =
      { b with
        top := b.top.push ⟨.inclusion ⟨keyword, spelling, angled, none⟩, location?, []⟩
        pending := true
        file := file
        line := line } := by
  obtain ⟨file, line, hplace, hlocation⟩ := foldl_feed_placeOf b hl
  refine ⟨file, line + 1, ?_⟩
  rw [List.foldl_cons, List.foldl_cons, List.foldl_nil, Builder.feed, hlocation, hplace]
  rfl

/-- The line of program text is there to end the wait: otherwise the next file would be taken for
the one of this directive. -/
theorem adds_unopened (hl : InFile location?) :
    Adds ([placeOf location?, .inclusion keyword spelling angled] ++ [.text])
      [⟨.inclusion ⟨keyword, spelling, angled, none⟩, location?, []⟩] := by
  intro b hb
  obtain ⟨file, line, hread⟩ := foldl_feed_inclusion keyword spelling angled b hl
  refine ⟨file, line + 1, ?_⟩
  rw [List.foldl_append, hread, hb]
  rfl

/-- The wait ends with the marker of the file, and the directive comes back with the file below
it. -/
theorem adds_opened (hl : InFile location?) {ls : List Line} {items : List Node}
    (h : Adds ls items) (file : Path) :
    Adds ([placeOf location?, .inclusion keyword spelling angled] ++
        (.marker 1 file.text true false :: ls ++ [.marker 1 file.text false true]))
      [⟨.inclusion ⟨keyword, spelling, angled, some file⟩, location?,
        [⟨.region file, none, items⟩]⟩] := by
  intro b hb
  obtain ⟨place, line, hread⟩ := foldl_feed_inclusion keyword spelling angled b hl
  -- the directive waits in front of what the frame held
  have henter := Builder.enter_of_pending
    (b := { b with
      top := b.top.push ⟨.inclusion ⟨keyword, spelling, angled, none⟩, location?, []⟩
      pending := true
      file := place
      line := line }) rfl rfl file
  obtain ⟨place', line', hls⟩ := foldl_feed_nested h henter
  refine ⟨place', line', ?_⟩
  rw [List.foldl_append, hread, hls, hb, Frame.close, List.reverse_reverse]
  rfl

end

/-- Lines of several nodes add them one after the other. -/
theorem adds_linesOfAll {items : List Node} (h : ∀ n ∈ items, Adds (linesOf n) [n]) :
    Adds (linesOfAll items) items := by
  induction items with
  | nil => exact .nil
  | cons n items ih =>
    have hn : Adds (linesOf n) [n] := h n (List.mem_cons_self ..)
    exact hn.append (ih fun m hm => h m (List.mem_cons_of_mem n hm))

/-- The lines of an item add it. -/
theorem Item.adds {n : Node} (h : Item n) : Adds (linesOf n) [n] := by
  induction h with
  | region file _ ih => exact adds_region (adds_linesOfAll ih) file
  | define name hl => exact adds_define name hl
  | unopened keyword spelling angled hl => exact adds_unopened keyword spelling angled hl
  | @opened keyword spelling angled file location? hl items _ ih =>
    have hadds := adds_opened keyword spelling angled hl (adds_linesOfAll ih) file
    -- the region of the file is the only child
    have hlines : linesOfAll [⟨.region file, none, items⟩] =
        .marker 1 file.text true false :: linesOfAll items ++ [.marker 1 file.text false true] :=
      List.append_nil _
    rw [← hlines] at hadds
    exact hadds

/-- The lines of a tree are read as the tree. -/
theorem finish_foldl_feed_linesOf {mainFile : Path} {root : Node} (h : Shaped mainFile root) :
    ((linesOf root).foldl Builder.feed (.start mainFile)).finish = root := by
  obtain ⟨items, rfl, hitems⟩ := shaped_iff.1 h
  obtain ⟨file, line, hread⟩ :=
    adds_linesOfAll (fun n hn => (hitems n hn).adds) (.start mainFile) rfl
  rw [linesOf, hread, Builder.finish]
  show Node.mk (.unit mainFile) none (items.reverse ++ []).reverse = _
  rw [List.append_nil, List.reverse_reverse]

end IncludeAudit.Preprocessed

namespace IncludeAudit.TranslationUnit

open Preprocessed

/-- **Rendering a tree and reading it again gives the tree**, whatever files, places and nesting it
has. -/
theorem ofPreprocessed_render {mainFile : Path} {root : Node} (h : WellFormed mainFile root) :
    ofPreprocessed (render root) mainFile = ⟨root, []⟩ := by
  rw [ofPreprocessed, classify_lines_render h.writable, finish_foldl_feed_linesOf h.shaped]

/-! ## A sample

A directive enters a file with quotes, a backslash and a line feed in its name.  In the file stand a
directive that entered nothing and a macro definition from outside every file, and behind it the
same file is entered once more, without a directive.
-/
namespace Sample

def file : Path := ⟨"d\\\n\"e\""⟩

def unopened : Node :=
  ⟨.inclusion ⟨.once, "f \"g\"", true, none⟩, some ⟨file.text, 4294967294⟩, []⟩

def macroName : Node := ⟨.define "_F1", none, []⟩

def region : Node := ⟨.region file, none, [unopened, macroName]⟩

def directive : Node :=
  ⟨.inclusion ⟨.next, "<e>\\", false, some file⟩, some ⟨"a.c", 3⟩, [region]⟩

def root : Node := ⟨.unit ⟨"a.c"⟩, none, [directive, region]⟩

theorem item_of_mem_region : ∀ n ∈ [unopened, macroName], Item n := by
  have hunopened : Item unopened := .unopened .once "f \"g\"" true fun l hl => by
    cases hl
    decide
  exact List.forall_mem_cons.2 ⟨hunopened, List.forall_mem_cons.2 ⟨.define "_F1" nofun, nofun⟩⟩

theorem shaped_root : Shaped ⟨"a.c"⟩ root := by
  have hdirective : Item directive := by
    refine .opened .next "<e>\\" false file (fun l hl => ?_) item_of_mem_region
    cases hl
    decide
  have hregion : Item region := .region file item_of_mem_region
  exact shaped_iff.2 ⟨_, rfl,
    List.forall_mem_cons.2 ⟨hdirective, List.forall_mem_cons.2 ⟨hregion, nofun⟩⟩⟩

theorem isWritable_of_within_root (m : Node) (hm : m.Within root) : IsWritable m := by
  have hnodes : m ∈ [root, directive, region, unopened, macroName, region, unopened, macroName] :=
    Node.mem_nodes_of_within hm
  simp only [List.mem_cons, List.not_mem_nil, or_false] at hnodes
  have hregion : IsWritable region := ⟨nofun, nofun, nofun⟩
  have hunopened : IsWritable unopened := by
    refine ⟨fun l hl => ?_, nofun, fun d hd => ?_⟩
    · cases hl
      decide
    · cases hd
      decide
  have hmacroName : IsWritable macroName := by
    refine ⟨nofun, fun name hname => ?_, nofun⟩
    cases hname
    exact ⟨'_', ['F', '1'], by decide, by decide, List.all_eq_true.1 (by decide)⟩
  rcases hnodes with rfl | rfl | rfl | rfl | rfl | rfl | rfl | rfl
  · exact ⟨nofun, nofun, nofun⟩
  · refine ⟨fun l hl => ?_, nofun, fun d hd => ?_⟩
    · cases hl
      decide
    · cases hd
      decide
  · exact hregion
  · exact hunopened
  · exact hmacroName
  · exact hregion
  · exact hunopened
  · exact hmacroName

end Sample

theorem ofPreprocessed_render_sample :
    WellFormed ⟨"a.c"⟩ Sample.root ∧
      ofPreprocessed (render Sample.root) ⟨"a.c"⟩ = ⟨Sample.root, []⟩ := by
  have h : WellFormed ⟨"a.c"⟩ Sample.root :=
    ⟨Sample.shaped_root, Sample.isWritable_of_within_root⟩
  exact ⟨h, ofPreprocessed_render h⟩

end IncludeAudit.TranslationUnit
