import ArenaScript.Arena
import ArenaScript.Collector
import ArenaScript.Collector.Compaction
import ArenaScript.Collector.Marking
import ArenaScript.Config
import ArenaScript.Config.Entry
import ArenaScript.Config.File
import ArenaScript.Config.Toml
import ArenaScript.Config.Yaml
import ArenaScript.Cursor
import ArenaScript.Digest
import ArenaScript.Dump
import ArenaScript.Engine.Basic
import ArenaScript.Engine.Heap
import ArenaScript.Engine.Operators
import ArenaScript.Engine.Scanning
import ArenaScript.Entity
import ArenaScript.Error
import ArenaScript.Evaluate.Agreement
import ArenaScript.Evaluate.Call
import ArenaScript.Evaluate.Expression
import ArenaScript.Evaluate.Literal
import ArenaScript.Evaluate.Machine
import ArenaScript.Evaluate.Routine
import ArenaScript.Evaluate.Statement
import ArenaScript.Event
import ArenaScript.Halt
import ArenaScript.Host.Program
import ArenaScript.Host.Requests
import ArenaScript.Main
import ArenaScript.Number.Arithmetic
import ArenaScript.Number.Binary64
import ArenaScript.Number.Decimal
import ArenaScript.Number.Text
import ArenaScript.Render
import ArenaScript.Shell
import ArenaScript.Shell.Dialogue
import ArenaScript.Shell.Natives
import ArenaScript.Shell.Options
import ArenaScript.Shell.Outline
import ArenaScript.Source
import ArenaScript.Text.Bytes
import ArenaScript.Text.Escape
import ArenaScript.Text.Lines
import ArenaScript.Text.Numeral
import ArenaScript.Text.Printable
import ArenaScript.Text.Quoted
import ArenaScript.Token
import ArenaScript.Token.Literal
import ArenaScript.Token.Scanner
import ArenaScript.Value
import ArenaScript.Proofs.Arena.Headers
import ArenaScript.Proofs.Arena.Records
import ArenaScript.Proofs.Value.Packing
import ArenaScript.Proofs.Arena.Contents
import ArenaScript.Proofs.Collector.Marking
import ArenaScript.Proofs.Collector.Compaction
import ArenaScript.Proofs.Collector.Relocation
import ArenaScript.Proofs.Arena.Typing
import ArenaScript.Proofs.Collector.Collection
import ArenaScript.Proofs.Collector.Soundness
import ArenaScript.Proofs.Collector.Completeness
import ArenaScript.Proofs.Collector.Clearing
import ArenaScript.Proofs.Collector.Descent
import ArenaScript.Proofs.Arena.Allocation
import ArenaScript.Proofs.Engine.Entities
import ArenaScript.Proofs.Engine.Creation
import ArenaScript.Proofs.Source.Windows
import ArenaScript.Proofs.Source.Parameters
import ArenaScript.Proofs.Lockstep.World
import ArenaScript.Proofs.Source.Reading
import ArenaScript.Proofs.Lockstep.Arenas
import ArenaScript.Proofs.Lockstep.Texts
import ArenaScript.Proofs.Lockstep.Alike
import ArenaScript.Proofs.Lockstep.Lone
import ArenaScript.Proofs.Lockstep.Together
import ArenaScript.Proofs.Lockstep.Actions
import ArenaScript.Proofs.Lockstep.Collection
import ArenaScript.Proofs.Lockstep.Operators
import ArenaScript.Proofs.Lockstep.Literals
import ArenaScript.Proofs.Lockstep.Expressions
import ArenaScript.Proofs.Lockstep.Calls
import ArenaScript.Proofs.Lockstep.Statements
import ArenaScript.Proofs.Arena.Layout
import ArenaScript.Proofs.Host.Conduct
import ArenaScript.Proofs.Lockstep.Rendering
import ArenaScript.Proofs.Lockstep.Queries
import ArenaScript.Proofs.Lockstep.Natives
import ArenaScript.Proofs.Lockstep.Runs
import ArenaScript.Proofs.Lockstep.Sessions
import ArenaScript.Proofs.Host.Arguments
import ArenaScript.Proofs.Host.Balance
import ArenaScript.Proofs.Host.Watching
import ArenaScript.Proofs.Host.Sessions
import ArenaScript.Proofs.Arena.Scratch
import ArenaScript.Proofs.Host.Safety
import ArenaScript.Proofs.Host.Transparency
import ArenaScript.Proofs.Evaluate.DryRun
import ArenaScript.Proofs.Source.Parts
import ArenaScript.Proofs.Grammar.Braces
import ArenaScript.Proofs.Host.Blocks
import ArenaScript.Proofs.Host.Scopes
import ArenaScript.Proofs.Arena.Extension
import ArenaScript.Proofs.Host.Updates
import ArenaScript.Proofs.Host.Store
import ArenaScript.Proofs.Source.Quotation
import ArenaScript.Proofs.Syntax.Literals
import ArenaScript.Proofs.Source.Tiling
import ArenaScript.Proofs.Source.Padding
import ArenaScript.Proofs.Shell.Display
import ArenaScript.Proofs.Host.Functions
import ArenaScript.Proofs.Engine.Failures
import ArenaScript.Proofs.Number.Literals
import ArenaScript.Proofs.Value.Boxing
import ArenaScript.Proofs.Evaluate.Tracing
import ArenaScript.Proofs.Host.Messages
