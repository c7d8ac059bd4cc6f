import LinearProgram.Scalar.Exact
import LinearProgram.Engine.Canned
import LinearProgram.Engine.Recorded
import LinearProgram.Simplex.Basis
import LinearProgram.Simplex.Solve
import LinearProgram.Model.Run
import LinearProgram.Proofs.Decides
import LinearProgram.Proofs.Budget
import LinearProgram.Proofs.GridSolve
import LinearProgram.Proofs.Reading
import LinearProgram.Proofs.CurrentSolution
import LinearProgram.Proofs.Refusal
import LinearProgram.Proofs.EngineCalls
import LinearProgram.Proofs.Numbering
import LinearProgram.Proofs.SamePoints
import LinearProgram.Proofs.Trail
import LinearProgram.Proofs.Defaults
import LinearProgram.Proofs.BoundChecks
import LinearProgram.Proofs.Objective
import LinearProgram.Proofs.RowValues
import LinearProgram.Proofs.Emptying
import LinearProgram.Proofs.Names
import LinearProgram.Proofs.Parts
import LinearProgram.Proofs.EntryOrder
import LinearProgram.Proofs.HandOver
import LinearProgram.Proofs.Encoding
import LinearProgram.Proofs.Overflow
import LinearProgram.Proofs.ColumnBounds
