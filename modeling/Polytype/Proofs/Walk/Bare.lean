import Polytype.Proofs.Notes
import Polytype.Proofs.Walk.Equations

/-!
# The walk does not look at notes

Whatever notes a tree carries, it is walked over and printed in the same way (`inferProgram_map`). So
programs that differ in their notes alone come out the same (`inferProgram_congr`).
-/

namespace Polytype

variable {α β : Type} (f : α → β)

/-! ## Printing -/

theorem Name.listText_map (ps : List (Name α)) : listText (ps.map (mapNote f)) = listText ps := by
  simp only [listText, List.map_map, Function.comp_def, mapNote_text]

theorem Name.arrowText_map (ps : List (Name α)) : arrowText (ps.map (mapNote f)) = arrowText ps := by
  have list := listText_map f ps
  rcases ps with _ | ⟨p, _ | ⟨q, ps⟩⟩
  · rfl
  · rfl
  · exact congrArg (fun text => "(" ++ text ++ ")") list

theorem print_mapNotes : Hereditary (α := α)
    (fun e => ∀ place, (e.mapNotes f).print place = e.print place)
    (fun _ => True) (fun _ => True) (fun _ => True) (fun _ => True) where
  number _ _ _ := rfl
  text _ _ _ := rfl
  boolean _ _ _ := rfl
  null _ _ := rfl
  name _ _ := rfl
  unary tag op e ih place := by rw [Expr.mapNotes_unary, Expr.print, Expr.print, ih]
  binary tag op l r ihl ihr place := by
    rw [Expr.mapNotes_binary, Expr.print, Expr.print, ihl, ihr]
  conditional tag t c a iht ihc iha place := by
    rw [Expr.mapNotes_conditional, Expr.print, Expr.print, iht, ihc, iha]
  call tag e args ih ihargs place := by
    have texts : (args.map (Expr.mapNotes f)).map (Expr.print Precedence.assignment) =
        args.map (Expr.print Precedence.assignment) := by
      rw [List.map_map]
      exact List.map_congr_left fun e he => ihargs e he _
    rw [Expr.mapNotes_call, Expr.print, Expr.print, ih, Expr.printAll_eq, Expr.printAll_eq, texts]
  arrow tag ps body ih place := by
    rw [Expr.mapNotes_arrow, Expr.print, Expr.print, ih, Name.arrowText_map]
  arrowBlock tag ps body _ place := by
    rw [Expr.mapNotes_arrowBlock, Expr.print, Expr.print, Name.arrowText_map]
  assign tag target e ih place := by rw [Expr.mapNotes_assign, Expr.print, Expr.print, ih]; rfl
  declare _ _ _ _ _ := trivial
  function _ _ _ _ _ := trivial
  retNothing _ := trivial
  ret _ _ _ := trivial
  ifElse _ _ := trivial
  block _ _ := trivial
  expr _ _ := trivial
  body _ _ _ := trivial
  branch _ _ _ _ _ _ _ := trivial
  absent := trivial
  otherwise _ _ := trivial
  elseIf _ _ := trivial

theorem Expr.source_mapNotes (e : Expr α) : (e.mapNotes f).source = e.source :=
  (print_mapNotes f).forExpr e _

theorem Expr.conditionalHeader_mapNotes (e : Expr α) :
    (e.mapNotes f).conditionalHeader = e.conditionalHeader := by
  rw [conditionalHeader, (print_mapNotes f).forExpr e, conditionalHeader]

theorem Stmt.declareHeader_mapNotes (keyword : Keyword) (n : Name α) (e : Expr α) :
    declareHeader keyword (n.mapNote f) (e.mapNotes f) = declareHeader keyword n e := by
  rw [declareHeader, Expr.source_mapNotes, declareHeader]
  rfl

theorem Stmt.functionHeader_mapNote (n : Name α) (ps : List (Name α)) :
    functionHeader (n.mapNote f) (ps.map (Name.mapNote f)) = functionHeader n ps := by
  rw [functionHeader, functionStart, Name.listText_map, functionHeader, functionStart]
  rfl

theorem If.header_mapNotes (b : If α) : (b.mapNotes f).header = b.header := by
  obtain ⟨tag, test, consequent, alternate⟩ := b
  have absent : (alternate.mapNotes f).isAbsent = alternate.isAbsent := by
    cases alternate <;> rfl
  rw [mapNotes_mk, header, start, Expr.source_mapNotes, absent, header, start]

/-! ## Inference -/

namespace Walk

theorem hoist_map (body : List (Stmt α)) : hoist (body.map (Stmt.mapNotes f)) = hoist body := by
  induction body with
  | nil => rfl
  | cons s rest ih =>
    rw [List.map_cons, hoist, hoist, ih, Stmt.declared?_mapNotes]
    cases s.declared? <;> rfl

theorem bindParams_map (ps : List (Name α)) :
    bindParams (ps.map (Name.mapNote f)) = bindParams ps := by
  induction ps with
  | nil => rfl
  | cons p ps ih =>
    rw [List.map_cons, bindParams, bindParams, ih]
    rfl

theorem inferExprs_map (es : List (Expr α)) (h : ∀ e ∈ es, inferExpr (e.mapNotes f) = inferExpr e) :
    inferExprs (es.map (Expr.mapNotes f)) = inferExprs es := by
  induction es with
  | nil => rfl
  | cons e es ih =>
    obtain ⟨first, rest⟩ := List.forall_mem_cons.mp h
    rw [List.map_cons, inferExprs, inferExprs, first, ih rest]

theorem inferStmts_map (ss : List (Stmt α)) (h : ∀ s ∈ ss, inferStmt (s.mapNotes f) = inferStmt s) :
    inferStmts (ss.map (Stmt.mapNotes f)) = inferStmts ss := by
  induction ss with
  | nil => rfl
  | cons s ss ih =>
    obtain ⟨first, rest⟩ := List.forall_mem_cons.mp h
    rw [List.map_cons, inferStmts, inferStmts, first, ih rest]

theorem infer_mapNotes : Hereditary (α := α)
    (fun e => inferExpr (e.mapNotes f) = inferExpr e)
    (fun s => inferStmt (s.mapNotes f) = inferStmt s)
    (fun b => inferBlock (b.mapNotes f) = inferBlock b)
    (fun b => inferIf (b.mapNotes f) = inferIf b)
    (fun a => inferAlternate (a.mapNotes f) = inferAlternate a) where
  number _ _ := rfl
  text _ _ := rfl
  boolean _ _ := rfl
  null _ := rfl
  name _ := rfl
  unary tag op e ih := by
    have source := Expr.source_mapNotes f (.unary tag op e)
    rw [Expr.mapNotes_unary] at source ⊢
    rw [inferExpr, inferExpr, source, ih]
    rfl
  binary tag op l r ihl ihr := by
    have source := Expr.source_mapNotes f (.binary tag op l r)
    rw [Expr.mapNotes_binary] at source ⊢
    rw [inferExpr, inferExpr, source, ihl, ihr]
    rfl
  conditional tag t c a iht ihc iha := by
    rw [Expr.mapNotes_conditional, inferExpr, inferExpr, Expr.conditionalHeader_mapNotes, iht, ihc, iha]
    rfl
  call tag e args ih ihargs := by
    have source := Expr.source_mapNotes f (.call tag e args)
    rw [Expr.mapNotes_call] at source ⊢
    rw [inferExpr, inferExpr, source, ih, inferExprs_map f args ihargs]
    rfl
  arrow tag ps body ih := by
    rw [Expr.mapNotes_arrow, inferExpr, inferExpr, bindParams_map, ih]
    rfl
  arrowBlock tag ps body ih := by
    rw [Expr.mapNotes_arrowBlock, inferExpr, inferExpr, bindParams_map, ih]
    rfl
  assign tag target e ih := by
    have source := Expr.source_mapNotes f (.assign tag target e)
    rw [Expr.mapNotes_assign] at source ⊢
    rw [inferExpr, inferExpr, source, ih]
    rfl
  declare tag keyword n e ih := by
    rw [Stmt.mapNotes_declare, inferStmt, inferStmt, Stmt.declareHeader_mapNotes, ih]
    rfl
  function tag n ps body ih := by
    rw [Stmt.mapNotes_function, inferStmt, inferStmt, Stmt.functionHeader_mapNote, bindParams_map, ih]
    rfl
  retNothing _ := rfl
  ret tag e ih := by
    rw [Stmt.mapNotes_ret, Option.map_some, inferStmt, inferStmt, ih]
    rfl
  ifElse b ih := by rw [Stmt.mapNotes_ifElse, inferStmt, inferStmt, ih]
  block b ih := by rw [Stmt.mapNotes_block, inferStmt, inferStmt, ih]
  expr e ih := by rw [Stmt.mapNotes_expr, inferStmt, inferStmt, ih]
  body tag body ih := by
    rw [Block.mapNotes_mk, inferBlock, inferBlock, hoist_map, inferStmts_map f body ih]
    rfl
  branch tag test consequent alternate iht ihc iha := by
    have header := If.header_mapNotes f ⟨tag, test, consequent, alternate⟩
    rw [If.mapNotes_mk] at header ⊢
    rw [inferIf, inferIf, header, iht, ihc, iha]
    rfl
  absent := rfl
  otherwise b ih := by rw [Alternate.mapNotes_block, inferAlternate, inferAlternate, ih]
  elseIf b ih := by rw [Alternate.mapNotes_elseIf, inferAlternate, inferAlternate, ih]

theorem inferProgram_map (p : Program α) : inferProgram (p.map f) = inferProgram p := by
  rw [Program.map_eq, inferProgram, inferProgram, hoist_map,
    inferStmts_map f p.body fun s _ => (infer_mapNotes f).forStmt s]

theorem inferProgram_congr {p : Program α} {q : Program β} (h : p.map bare = q.map bare) :
    inferProgram p = inferProgram q := by
  rw [← inferProgram_map bare p, h, inferProgram_map]

end Walk

end Polytype
