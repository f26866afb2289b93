import GlslLayout.About
import GlslLayout.Address
import GlslLayout.Alignment
import GlslLayout.Attribute
import GlslLayout.BindGroup
import GlslLayout.BlockLayout
import GlslLayout.Declarator
import GlslLayout.Diagnostic
import GlslLayout.ElementFormat
import GlslLayout.Failure
import GlslLayout.Host
import GlslLayout.Member
import GlslLayout.Policy
import GlslLayout.Problem
import GlslLayout.Proofs.Accounting
import GlslLayout.Proofs.Addresses
import GlslLayout.Proofs.ArraySizes
import GlslLayout.Proofs.AttributeView
import GlslLayout.Proofs.BadLines
import GlslLayout.Proofs.BindGroup
import GlslLayout.Proofs.BlockLayout
import GlslLayout.Proofs.BoundText
import GlslLayout.Proofs.Collisions
import GlslLayout.Proofs.Distinctness
import GlslLayout.Proofs.HostWrites
import GlslLayout.Proofs.Merging
import GlslLayout.Proofs.Mesh
import GlslLayout.Proofs.MeshText
import GlslLayout.Proofs.Outcome
import GlslLayout.Proofs.Provision
import GlslLayout.Proofs.Redeclaration
import GlslLayout.Proofs.Rewriting
import GlslLayout.Proofs.Shader
import GlslLayout.Proofs.SizeChecks
import GlslLayout.Proofs.Source.Bytes
import GlslLayout.Proofs.Source.Comments
import GlslLayout.Proofs.Source.Decomposition
import GlslLayout.Proofs.Source.Editing
import GlslLayout.Proofs.Source.Inert
import GlslLayout.Proofs.Source.Look
import GlslLayout.Proofs.Source.Passage
import GlslLayout.Proofs.Source.Reading
import GlslLayout.Proofs.Source.Refill
import GlslLayout.Proofs.Source.Search
import GlslLayout.Proofs.Spelling
import GlslLayout.Proofs.Statement
import GlslLayout.Proofs.Text
import GlslLayout.Proofs.TextureText
import GlslLayout.Proofs.Uniform
import GlslLayout.Proofs.UniformList
import GlslLayout.Proofs.Varying
import GlslLayout.Proofs.VaryingLocations
import GlslLayout.Semantic
import GlslLayout.Session
import GlslLayout.Shader
import GlslLayout.Source.Cut
import GlslLayout.Source.Piece
import GlslLayout.Source.Segmentation
import GlslLayout.Source.Stripped
import GlslLayout.Stage
import GlslLayout.Statement
import GlslLayout.Text.Blank
import GlslLayout.Text.Numeral
import GlslLayout.Text.Search
import GlslLayout.Texture
import GlslLayout.Uniform.Basic
import GlslLayout.Uniform.Merge
import GlslLayout.Uniform.Mesh
import GlslLayout.Uniform.Reading
import GlslLayout.ValueType
import GlslLayout.Varying
import GlslLayout.Word
